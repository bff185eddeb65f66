import TypeFlow.Proofs.Lists
import TypeFlow.Proofs.Ty.Occurrence
import TypeFlow.Solve.Explicit
import TypeFlow.Solve.Infer

namespace TypeFlow

namespace Generics

theorem required_le_iff {gs : Generics} {n : Nat} :
    gs.required ≤ n ↔ ∀ p ∈ gs.drop n, p.default.isSome = true := by
  induction gs generalizing n with
  | nil => simp [required]
  | cons p gs ih =>
    cases n with
    | zero =>
      have hrest : required gs = 0 ↔ ∀ p ∈ gs, p.default.isSome = true := by
        rw [← Nat.le_zero]
        exact ih
      rw [List.drop_zero, List.forall_mem_cons, ← hrest, required]
      split
      · next hzero => cases p.default <;> simp [hzero]
      · next n hsucc => simp [hsucc]
    | succ n =>
      rw [List.drop_succ_cons, ← ih, required]
      split
      · next hzero => split <;> omega
      · next m hsucc => omega

theorem required_tail {p : GenericParam} {gs : Generics} {n : Nat} (h : required (p :: gs) ≤ n + 1) :
    required gs ≤ n := by
  rw [required_le_iff] at h ⊢
  exact h

theorem default_of_required {p : GenericParam} {gs : Generics} (h : required (p :: gs) ≤ 0) :
    required gs ≤ 0 ∧ ∃ t, p.default = some t := by
  obtain ⟨hp, hgs⟩ := List.forall_mem_cons.mp (required_le_iff.mp h)
  exact ⟨required_le_iff.mpr hgs, Option.isSome_iff_exists.mp hp⟩

end Generics

inductive Generics.Fills (step : Nat → GenericParam → List Ty → Ty → Prop) :
    Nat → Generics → List Ty → List Ty → Prop
  | nil {k : Nat} {done : List Ty} : Fills step k [] done done
  | cons {k : Nat} {p : GenericParam} {gs : Generics} {done tys : List Ty} {t : Ty}
      (head : step k p done t) (tail : Fills step (k + 1) gs (done ++ [t]) tys) : Fills step k (p :: gs) done tys

namespace Generics.Fills

variable {step step' : Nat → GenericParam → List Ty → Ty → Prop} {k : Nat} {gs : Generics} {done tys : List Ty}

theorem isPrefix (h : Fills step k gs done tys) : done <+: tys := by
  induction h with
  | nil => exact List.prefix_refl _
  | cons _ _ ih => exact (List.prefix_append _ _).trans ih

theorem length (h : Fills step k gs done tys) : tys.length = done.length + gs.length := by
  induction h with
  | nil => rfl
  | cons _ _ ih =>
    rw [ih, List.length_append, List.length_singleton, List.length_cons]
    omega

theorem imp (h : Fills step k gs done tys) (himp : ∀ {k p done t}, step k p done t → step' k p done t) :
    Fills step' k gs done tys := by
  induction h with
  | nil => exact .nil
  | cons head _ ih => exact .cons (himp head) ih

theorem append {ts : List Ty} (hlength : ts.length = gs.length)
    (h : ∀ {i p t}, gs[i]? = some p → ts[i]? = some t → ∀ done, step (k + i) p done t) (done : List Ty) :
    Fills step k gs done (done ++ ts) := by
  induction gs generalizing k ts done with
  | nil =>
    rw [List.length_eq_zero_iff.mp hlength, List.append_nil]
    exact .nil
  | cons p gs ih =>
    cases ts with
    | nil => cases hlength
    | cons t ts =>
      have htail : Fills step (k + 1) gs (done ++ [t]) (done ++ [t] ++ ts) := by
        refine ih (Nat.succ.inj hlength) (fun {i q u} hq hu => ?_) _
        rw [Nat.add_right_comm]
        exact h (i := i + 1) hq hu
      rw [List.append_assoc] at htail
      exact .cons (h (i := 0) rfl rfl done) htail

theorem exists_of_mem_generics {p : GenericParam} (h : Fills step k gs done tys) (hp : p ∈ gs) :
    ∃ i us t, step i p us t := by
  induction h with
  | nil => cases hp
  | cons head _ ih =>
    rcases List.mem_cons.mp hp with rfl | hp
    · exact ⟨_, _, _, head⟩
    · exact ih hp

theorem exists_of_mem {t : Ty} (h : Fills step k gs done tys) (ht : t ∈ tys) :
    t ∈ done ∨ ∃ i p us, step i p us t := by
  induction h with
  | nil => exact .inl ht
  | cons head _ ih =>
    rcases ih ht with ht | hstep
    · rcases List.mem_append.mp ht with ht | ht
      · exact .inl ht
      · cases List.mem_singleton.mp ht
        exact .inr ⟨_, _, _, head⟩
    · exact .inr hstep

end Generics.Fills

def Instantiation.ofTypes (gs : Generics) (tys : List Ty) : Instantiation :=
  ⟨(gs.zip tys).map fun (p, t) => (p.name, .type t)⟩

namespace Instantiation

variable {gs : Generics} {tys : List Ty}

theorem typeArgs_ofTypes (h : tys.length = gs.length) : (ofTypes gs tys).typeArgs = tys := by
  simp only [typeArgs, ofTypes, List.map_map]
  exact List.map_snd_zip (Nat.le_of_eq h)

theorem names_ofTypes (h : tys.length = gs.length) :
    (ofTypes gs tys).params.map (·.1) = gs.map (·.name) := by
  simp only [ofTypes, List.map_map]
  exact map_zip_left (·.name) (Nat.le_of_eq h.symm)

end Instantiation

namespace Registry

def Satisfies (r : Registry) (b : Bounds) (gs : Generics) (args : List Ty) : Prop :=
  ∀ q ∈ gs.zip args, ∀ u ∈ q.1.bounds, r.assignableIn b q.2 (u.substParams args) = true

variable {r : Registry} {b : Bounds} {gs : Generics}

theorem violated_eq_none_iff {args : List Ty} {p : GenericParam} {t : Ty} : r.violated b args p t = none ↔
    ∀ u ∈ p.bounds, r.assignableIn b t (u.substParams args) = true := by
  simp [violated, List.find?_eq_none]

theorem checkConstraints_eq_ok_iff {args ts : List Ty} : r.checkConstraints b args gs ts = .ok () ↔
    ∀ q ∈ gs.zip ts, ∀ u ∈ q.1.bounds, r.assignableIn b q.2 (u.substParams args) = true := by
  induction gs generalizing ts with
  | nil => simp [checkConstraints]
  | cons p gs ih =>
    cases ts with
    | nil => simp [checkConstraints]
    | cons t ts =>
      rw [List.zip_cons_cons, List.forall_mem_cons, ← ih, ← violated_eq_none_iff, checkConstraints]
      cases r.violated b args p t with
      | none => simp
      | some u => simp

theorem finish_eq_ok_iff {params : List (String × GenericBinding)} {i : Instantiation} :
    r.finish b gs params = .ok i ↔ i = ⟨params⟩ ∧ r.Satisfies b gs i.typeArgs := by
  unfold Satisfies
  constructor
  · intro h
    obtain ⟨_, hcheck, h⟩ := exists_of_bind_ok h
    cases h
    exact ⟨rfl, checkConstraints_eq_ok_iff.mp hcheck⟩
  · rintro ⟨rfl, h⟩
    have hcheck := checkConstraints_eq_ok_iff.mpr h
    simp only [finish, hcheck]
    rfl

end Registry

def ExplicitArg.Binds (args : List ExplicitArg) (k : Nat) (p : GenericParam) (done : List Ty) (t : Ty) : Prop :=
  (∃ a b, args[k]? = some a ∧ p.bindExplicit a = .ok b ∧ b.toTy = t) ∨
    args.length ≤ k ∧ ∃ d, p.default = some d ∧ t = d.substParams done

theorem bindArgs_ok {missing : SolveError} {all args : List ExplicitArg} {gs : Generics}
    {done bs : List (String × GenericBinding)} (hargs : all.drop done.length = args)
    (h : bindArgs missing gs args done = .ok bs) :
    bs.map (·.1) = done.map (·.1) ++ gs.map (·.name) ∧
      gs.Fills (ExplicitArg.Binds all) done.length (done.map (·.2.toTy)) (bs.map (·.2.toTy)) := by
  induction gs generalizing args done with
  | nil =>
    cases h
    exact ⟨by simp, .nil⟩
  | cons p gs ih =>
    have step {b : GenericBinding} {rest : List ExplicitArg} (hrest : all.drop (done.length + 1) = rest)
        (hb : ExplicitArg.Binds all done.length p (done.map (·.2.toTy)) b.toTy)
        (h : bindArgs missing gs rest (done ++ [(p.name, b)]) = .ok bs) :
        bs.map (·.1) = done.map (·.1) ++ (p :: gs).map (·.name) ∧
          Generics.Fills (ExplicitArg.Binds all) done.length (p :: gs)
            (done.map (·.2.toTy)) (bs.map (·.2.toTy)) := by
      have hnext : (done ++ [(p.name, b)]).length = done.length + 1 := List.length_append
      obtain ⟨hnames, hfills⟩ := ih (by rw [hnext, hrest]) h
      rw [hnext, List.map_append] at hfills
      exact ⟨by simpa using hnames, .cons hb hfills⟩
    cases args with
    | nil =>
      have hle : all.length ≤ done.length := List.drop_eq_nil_iff.mp hargs
      rw [bindArgs] at h
      split at h
      · next d hdefault =>
        exact step (List.drop_eq_nil_iff.mpr (Nat.le_succ_of_le hle)) (.inr ⟨hle, d, hdefault, rfl⟩) h
      · cases h
    | cons a args =>
      obtain ⟨ha, hrest⟩ := of_drop_eq_cons hargs
      obtain ⟨b, hb, h⟩ := exists_of_bind_ok h
      exact step hrest (.inl ⟨a, b, ha, hb, rfl⟩) h

theorem Registry.solveExplicit_ok {r : Registry} {b : Bounds} {gs : Generics} {args : List ExplicitArg}
    {i : Instantiation} (h : r.solveExplicit b gs args = .ok i) :
    i.params.map (·.1) = gs.map (·.name) ∧ gs.Fills (ExplicitArg.Binds args) 0 [] i.typeArgs ∧
      r.Satisfies b gs i.typeArgs := by
  unfold solveExplicit at h
  dsimp only at h
  split at h
  · obtain ⟨bs, hbs, h⟩ := exists_of_bind_ok h
    obtain ⟨rfl, hsat⟩ := finish_eq_ok_iff.mp h
    have hdrop : args.drop ([] : List (String × GenericBinding)).length = args := rfl
    obtain ⟨hnames, hfills⟩ := bindArgs_ok hdrop hbs
    exact ⟨hnames, hfills, hsat⟩
  · cases h

def Solution.Reads (s : Solution) (v : Nat) (p : GenericParam) (done : List Ty) (t : Ty) : Prop :=
  p.isConst = false ∧ t.VarFree ∧
    (s.get v = some t ∨ s.get v = none ∧ ∃ d, p.default = some d ∧ t = d.substParams done)

theorem Solution.reads_iff {s : Solution} {v : Nat} {p : GenericParam} {done bs : List Ty} {d : Option Ty} {t : Ty}
    (hk : p.kind = .type bs d) : s.Reads v p done t ↔
      (s.get v).or (d.map (Ty.substParams done)) = some t ∧ t.flags.hasVar = false := by
  rw [Reads, Option.or_eq_some_iff, Option.map_eq_some_iff, Ty.hasVar_eq_false_iff, and_comm (b := t.VarFree)]
  simp [GenericParam.isConst, GenericParam.default, hk, eq_comm]

theorem Registry.readBindings_eq_ok_iff {gs : Generics} {s : Solution} {v : Nat} {done tys : List Ty} :
    readBindings s v gs done = .ok tys ↔ gs.Fills s.Reads v done tys := by
  induction gs generalizing v done with
  | nil =>
    refine ⟨fun h => ?_, fun h => ?_⟩ <;> cases h
    · exact .nil
    · rfl
  | cons p gs ih =>
    cases hk : p.kind with
    | const t =>
      simp only [readBindings, hk]
      refine iff_of_false nofun fun h => ?_
      cases h with
      | cons head =>
        obtain ⟨hconst, -⟩ := head
        simp [GenericParam.isConst, hk] at hconst
    | type bs d =>
      simp only [readBindings, hk]
      constructor
      · intro h
        split at h
        · next t ht =>
          split at h
          · cases h
          · next hfree => exact .cons ((Solution.reads_iff hk).mpr ⟨ht, by simpa using hfree⟩) (ih.mp h)
        · cases h
      · intro h
        cases h with
        | cons head tail =>
          obtain ⟨ht, hfree⟩ := (Solution.reads_iff hk).mp head
          rw [ht]
          dsimp only
          rw [if_neg (by simp [hfree])]
          exact ih.mpr tail

end TypeFlow
