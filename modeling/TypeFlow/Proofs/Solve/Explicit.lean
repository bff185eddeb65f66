import TypeFlow.Proofs.Solve.Gathering

namespace TypeFlow

theorem bindArgs_append {gs : Generics} (htypes : ∀ p ∈ gs, p.isConst = false) {tys : List Ty}
    (hlength : tys.length = gs.length) (missing : SolveError) (hs : Generics) (args : List ExplicitArg)
    (done : List (String × GenericBinding)) :
    bindArgs missing (gs ++ hs) (tys.map .type ++ args) done =
      bindArgs missing hs args (done ++ (Instantiation.ofTypes gs tys).params) := by
  induction gs generalizing tys done with
  | nil =>
    rw [List.length_eq_zero_iff.mp hlength]
    simp [Instantiation.ofTypes]
  | cons p gs ih =>
    obtain ⟨hp, hgs⟩ := List.forall_mem_cons.mp htypes
    cases tys with
    | nil => cases hlength
    | cons t tys =>
      have hbind : p.bindExplicit (.type t) = .ok (.type t) := by
        unfold GenericParam.bindExplicit
        cases hk : p.kind with
        | type => rfl
        | const => simp [GenericParam.isConst, hk] at hp
      rw [List.map_cons, List.cons_append, List.cons_append, bindArgs, hbind]
      refine (ih hgs (Nat.succ.inj hlength) _).trans ?_
      simp [Instantiation.ofTypes]

theorem bindArgs_types {gs : Generics} (htypes : ∀ p ∈ gs, p.isConst = false) {tys : List Ty}
    (hlength : tys.length = gs.length) (missing : SolveError) (done : List (String × GenericBinding)) :
    bindArgs missing gs (tys.map .type) done = .ok (done ++ (Instantiation.ofTypes gs tys).params) := by
  simpa [bindArgs] using bindArgs_append htypes hlength missing [] [] done

namespace Registry

variable {r : Registry} {b : Bounds} {gs : Generics} {tys : List Ty}

theorem solveExplicit_types (htypes : ∀ p ∈ gs, p.isConst = false) (hlength : tys.length = gs.length)
    (hsat : r.Satisfies b gs tys) :
    r.solveExplicit b gs (tys.map .type) = .ok (.ofTypes gs tys) := by
  have hcount : gs.acceptsCount (tys.map ExplicitArg.type).length = true := by
    rw [List.length_map, hlength, Generics.acceptsCount]
    simp [gs.required_le_length]
  unfold solveExplicit
  dsimp only
  rw [if_pos hcount, bindArgs_types htypes hlength]
  refine finish_eq_ok_iff.mpr ⟨rfl, ?_⟩
  rw [Instantiation.typeArgs_ofTypes hlength]
  exact hsat

theorem solveInferred_valid {base : Nat} {eqs : List Equation} {i : Instantiation}
    (h : r.solveInferred b gs base eqs = .ok i) :
    i.params.map (·.1) = gs.map (·.name) ∧ (∀ t ∈ i.typeArgs, t.VarFree) ∧
      r.Satisfies b gs i.typeArgs ∧ r.solveExplicit b gs (i.typeArgs.map .type) = .ok i := by
  obtain ⟨s, tys, -, hfills, hsat, rfl⟩ := solveInferred_eq_ok_iff.mp h
  have hlength : tys.length = gs.length := hfills.length.trans (Nat.zero_add _)
  have htypes : ∀ p ∈ gs, p.isConst = false := by
    intro p hp
    obtain ⟨_, _, _, hread⟩ := hfills.exists_of_mem_generics hp
    exact hread.1
  have hfree : ∀ t ∈ tys, t.VarFree := by
    intro t ht
    rcases hfills.exists_of_mem ht with ht | ⟨_, _, _, hread⟩
    · cases ht
    · exact hread.2.1
  rw [Instantiation.names_ofTypes hlength, Instantiation.typeArgs_ofTypes hlength]
  exact ⟨rfl, hfree, hsat, solveExplicit_types htypes hlength hsat⟩

def optionalSecond : Generics :=
  [⟨"T", 0, .type [] none⟩, ⟨"U", 1, .type [] (some (.option (.param "T" 0)))⟩]

-- A parameter that a literal binds, and one that is left to its default.
theorem solveInferred_valid_default :
    solveInferred {} [] optionalSecond 0 [{ pattern := .param "T" 0, actual := .prim .i64, weak := true }] =
      .ok (.ofTypes optionalSecond [.prim .i64, .option (.prim .i64)]) ∧
    solveExplicit {} [] optionalSecond [.type (.prim .i64), .type (.option (.prim .i64))] =
      .ok (.ofTypes optionalSecond [.prim .i64, .option (.prim .i64)]) := by
  have hsolved : solveInferred {} [] optionalSecond 0
      [{ pattern := .param "T" 0, actual := .prim .i64, weak := true }] =
        .ok (.ofTypes optionalSecond [.prim .i64, .option (.prim .i64)]) := by rfl
  exact ⟨hsolved, (solveInferred_valid hsolved).2.2.2⟩

end Registry

end TypeFlow
