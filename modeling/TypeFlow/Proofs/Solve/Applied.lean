import TypeFlow.Proofs.Solve.Explicit
import TypeFlow.Typing.Resolve

namespace TypeFlow

namespace Registry

variable {r : Registry} {b : Bounds} {scope gs hs : Generics} {ws : List Written} {tys : List Ty}

theorem resolveArgs_types (htypes : ∀ p ∈ gs, p.isConst = false) (hlength : ws.length ≤ gs.length)
    (h : r.resolveAll scope ws = .ok tys) (x : String) (done : List Ty) :
    r.resolveArgs scope x ws gs done = .ok (fillDefaults (gs.drop ws.length) (done ++ tys)) := by
  induction ws generalizing gs tys done with
  | nil =>
    cases h
    rw [resolveArgs, List.append_nil]
    rfl
  | cons w ws ih =>
    cases gs with
    | nil => exact absurd hlength (Nat.not_succ_le_zero _)
    | cons p gs =>
      obtain ⟨hp, hgs⟩ := List.forall_mem_cons.mp htypes
      rw [resolveAll] at h
      obtain ⟨t, ht, h⟩ := exists_of_bind_ok h
      obtain ⟨ts, hts, h⟩ := exists_of_bind_ok h
      cases h
      rw [resolveArgs, hp, if_neg Bool.false_ne_true, ht]
      refine (ih hgs (Nat.le_of_succ_le_succ hlength) hts _).trans ?_
      rw [List.append_assoc]
      rfl

theorem bindArgs_defaults (hdefault : ∀ p ∈ hs, p.default.isSome = true) (hlength : tys.length = gs.length)
    (missing : SolveError) :
    bindArgs missing hs [] (Instantiation.ofTypes gs tys).params =
      .ok (Instantiation.ofTypes (gs ++ hs) (fillDefaults hs tys)).params := by
  induction hs generalizing gs tys with
  | nil => rw [bindArgs, fillDefaults, List.append_nil]
  | cons p hs ih =>
    obtain ⟨hp, hhs⟩ := List.forall_mem_cons.mp hdefault
    obtain ⟨d, hd⟩ := Option.isSome_iff_exists.mp hp
    have hargs : (Instantiation.ofTypes gs tys).params.map (·.2.toTy) = tys :=
      Instantiation.typeArgs_ofTypes hlength
    have hbound (t : Ty) : (Instantiation.ofTypes gs tys).params ++ [(p.name, .type t)] =
        (Instantiation.ofTypes (gs ++ [p]) (tys ++ [t])).params := by
      simp [Instantiation.ofTypes, List.zip_append hlength.symm]
    rw [bindArgs, fillDefaults, hd, hargs]
    dsimp only
    rw [hbound, ih hhs (by simp [hlength]), List.append_assoc]
    rfl

theorem length_of_resolveAll (h : r.resolveAll scope ws = .ok tys) : tys.length = ws.length := by
  induction ws generalizing tys with
  | nil =>
    cases h
    rfl
  | cons w ws ih =>
    rw [resolveAll] at h
    obtain ⟨t, -, h⟩ := exists_of_bind_ok h
    obtain ⟨ts, hts, h⟩ := exists_of_bind_ok h
    cases h
    exact congrArg Nat.succ (ih hts)

theorem length_fillDefaults (gs : Generics) (done : List Ty) :
    (fillDefaults gs done).length = done.length + gs.length := by
  induction gs generalizing done with
  | nil => rfl
  | cons p gs ih =>
    rw [fillDefaults, ih, List.length_append, List.length_singleton, List.length_cons]
    omega

theorem typeArgs_completed (hcount : gs.acceptsCount tys.length = true) :
    (Instantiation.ofTypes gs (fillDefaults (gs.drop tys.length) tys)).params.map (·.2.toTy) =
      fillDefaults (gs.drop tys.length) tys := by
  have hle : tys.length ≤ gs.length := of_decide_eq_true (Bool.and_eq_true_iff.mp hcount).2
  refine Instantiation.typeArgs_ofTypes ?_
  rw [length_fillDefaults, List.length_drop]
  omega

theorem bindArgs_completed (htypes : ∀ p ∈ gs, p.isConst = false) (hcount : gs.acceptsCount tys.length = true)
    (missing : SolveError) :
    bindArgs missing gs (tys.map .type) [] =
      .ok (Instantiation.ofTypes gs (fillDefaults (gs.drop tys.length) tys)).params := by
  obtain ⟨hmin, hmax⟩ := Bool.and_eq_true_iff.mp hcount
  have hgiven : tys.length = (gs.take tys.length).length := by
    rw [List.length_take]
    exact (Nat.min_eq_left (of_decide_eq_true hmax)).symm
  have hdefault : ∀ p ∈ gs.drop tys.length, p.default.isSome = true :=
    Generics.required_le_iff.mp (of_decide_eq_true hmin)
  calc bindArgs missing gs (tys.map .type) []
      = bindArgs missing (gs.take tys.length ++ gs.drop tys.length) (tys.map .type ++ []) [] := by
        rw [List.take_append_drop, List.append_nil]
    _ = bindArgs missing (gs.drop tys.length) [] (Instantiation.ofTypes (gs.take tys.length) tys).params :=
        bindArgs_append (fun p hp => htypes p (List.mem_of_mem_take hp)) hgiven missing _ [] []
    _ = _ := by rw [bindArgs_defaults hdefault hgiven, List.take_append_drop]

theorem fills_completed (htypes : ∀ p ∈ gs, p.isConst = false) (hcount : gs.acceptsCount tys.length = true) :
    gs.Fills (ExplicitArg.Binds (tys.map .type)) 0 [] (fillDefaults (gs.drop tys.length) tys) := by
  have hdrop : (tys.map ExplicitArg.type).drop ([] : List (String × GenericBinding)).length = tys.map .type := rfl
  obtain ⟨-, hfills⟩ := bindArgs_ok hdrop (bindArgs_completed htypes hcount (.genericArgCount 0 0 0))
  rwa [typeArgs_completed hcount] at hfills

theorem checkConstraints_error {args ts : List Ty} {e : SolveError}
    (h : r.checkConstraints b args gs ts = .error e) : ∃ p t c, e = .constraintViolation p t c := by
  induction gs generalizing ts with
  | nil => cases h
  | cons p gs ih =>
    cases ts with
    | nil => cases h
    | cons t ts =>
      rw [checkConstraints] at h
      split at h
      · cases h
        exact ⟨_, _, _, rfl⟩
      · exact ih h

theorem finish_ne_genericArgCount {params : List (String × GenericBinding)} {min max found : Nat} :
    r.finish b gs params ≠ .error (.genericArgCount min max found) := by
  intro h
  rcases exists_of_bind_error h with h | ⟨_, -, h⟩
  · obtain ⟨_, _, _, he⟩ := checkConstraints_error h
    cases he
  · cases h

theorem solveExplicit_eq (htypes : ∀ p ∈ gs, p.isConst = false) : r.solveExplicit b gs (tys.map .type) =
    if gs.acceptsCount tys.length then
      r.finish b gs (Instantiation.ofTypes gs (fillDefaults (gs.drop tys.length) tys)).params
    else .error (.genericArgCount gs.required gs.length tys.length) := by
  unfold solveExplicit
  rw [List.length_map]
  dsimp only
  split
  · next hcount =>
    rw [bindArgs_completed htypes hcount]
    rfl
  · rfl

variable {x : String} {d : DeclId} {info : DeclInfo}

theorem resolve_eq (hscope : scope.find x = none) (hbuiltin : builtinType x = none)
    (hdef : r.typeDef x = some (.decl d)) (hinfo : r.decl? d = some info)
    (htypes : ∀ p ∈ info.generics, p.isConst = false) (hargs : r.resolveAll scope ws = .ok tys) :
    r.resolve scope (.named x ws) =
      if info.generics.acceptsCount tys.length then
        .ok (info.instantiate d (fillDefaults (info.generics.drop tys.length) tys))
      else .error (.genericArgCount x info.generics.required info.generics.length tys.length) := by
  have hlength := length_of_resolveAll hargs
  rw [resolve, hscope, hbuiltin, hdef, hlength]
  dsimp only
  rw [hinfo]
  dsimp only
  split
  · next hcount =>
    have hle : ws.length ≤ info.generics.length := of_decide_eq_true (Bool.and_eq_true_iff.mp hcount).2
    rw [resolveArgs_types htypes hle hargs]
    rfl
  · rfl

theorem resolve_applied (b : Bounds) (hscope : scope.find x = none) (hbuiltin : builtinType x = none)
    (hdef : r.typeDef x = some (.decl d)) (hinfo : r.decl? d = some info)
    (htypes : ∀ p ∈ info.generics, p.isConst = false) (hargs : r.resolveAll scope ws = .ok tys) :
    (∀ y min max found, r.resolve scope (.named x ws) = .error (.genericArgCount y min max found) ↔
      y = x ∧ r.solveExplicit b info.generics (tys.map .type) = .error (.genericArgCount min max found)) ∧
    (∀ i, r.solveExplicit b info.generics (tys.map .type) = .ok i →
      r.resolve scope (.named x ws) = .ok (info.instantiate d i.typeArgs)) ∧
    (info.generics.acceptsCount ws.length = true →
      ∃ args, r.resolve scope (.named x ws) = .ok (info.instantiate d args) ∧
        info.generics.Fills (ExplicitArg.Binds (tys.map .type)) 0 [] args ∧
        ∀ missing, bindArgs missing info.generics (tys.map .type) [] =
          .ok (Instantiation.ofTypes info.generics args).params) ∧
    (info.generics.acceptsCount ws.length = false → r.resolve scope (.named x ws) =
      .error (.genericArgCount x info.generics.required info.generics.length ws.length)) := by
  rw [resolve_eq hscope hbuiltin hdef hinfo htypes hargs, solveExplicit_eq htypes, ← length_of_resolveAll hargs]
  cases hcount : info.generics.acceptsCount tys.length with
  | false =>
    refine ⟨fun y min max found => ?_, nofun, nofun, fun _ => rfl⟩
    simp [eq_comm]
  | true =>
    rw [if_pos rfl, if_pos rfl]
    refine ⟨fun y min max found => ?_, fun i hi => ?_, fun _ => ?_, nofun⟩
    · exact iff_of_false nofun fun h => finish_ne_genericArgCount h.2
    · obtain ⟨rfl, -⟩ := finish_eq_ok_iff.mp hi
      rw [Instantiation.typeArgs, typeArgs_completed hcount]
    · exact ⟨_, rfl, fills_completed htypes hcount, bindArgs_completed htypes hcount⟩

def indexed : Generics :=
  [⟨"A", 0, .type [] (some (.prim .i32))⟩, ⟨"K", 1, .type [.interface 0 []] none⟩,
    ⟨"V", 2, .type [] (some (.option (.param "K" 1)))⟩]

def tables : Registry where
  decls := [⟨"Key", [], .interface false [1], {}⟩, ⟨"Id", [], .struct [] [.interface 0 []], {}⟩,
    ⟨"Index", indexed, .struct [] [], {}⟩]
  types := [("Key", .decl 0), ("Id", .decl 1), ("Index", .decl 2)]

theorem resolve_applied_indexed :
    tables.resolve [⟨"T", 0, .type [] none⟩] (.named "Index" [.named "T" []]) =
        .error (.genericArgCount "Index" 2 3 1) ∧
      tables.resolve [⟨"T", 0, .type [] none⟩] (.named "Index" [.named "T" [], .named "Id" []]) =
        .ok (.named 2 [.param "T" 0, .named 1 [], .option (.named 1 [])]) := by
  have hshort : tables.solveExplicit [] indexed [.type (.param "T" 0)] =
      .error (.genericArgCount 2 3 1) := by rfl
  have hsolved : tables.solveExplicit [] indexed [.type (.param "T" 0), .type (.named 1 [])] =
      .ok (.ofTypes indexed [.param "T" 0, .named 1 [], .option (.named 1 [])]) := by rfl
  have hbuiltin : builtinType "Index" = none := by decide
  have htypes : ∀ p ∈ indexed, p.isConst = false := by decide
  have hone : tables.resolveAll [⟨"T", 0, .type [] none⟩] [.named "T" []] = .ok [.param "T" 0] := by rfl
  have htwo : tables.resolveAll [⟨"T", 0, .type [] none⟩] [.named "T" [], .named "Id" []] =
      .ok [.param "T" 0, .named 1 []] := by rfl
  obtain ⟨hcount, -⟩ := resolve_applied [] rfl hbuiltin rfl rfl htypes hone
  obtain ⟨-, hfilled, -⟩ := resolve_applied [] rfl hbuiltin rfl rfl htypes htwo
  exact ⟨(hcount _ _ _ _).mpr ⟨rfl, hshort⟩, hfilled _ hsolved⟩

end Registry

end TypeFlow
