import TypeFlow.Infer.Literal
import TypeFlow.Proofs.Typing.Assign

namespace TypeFlow

namespace Registry

inductive StandsFor (r : Registry) (b : Bounds) : Ty → Ty → Prop
  | same (t : Ty) : StandsFor r b t t
  | never (u : Ty) : StandsFor r b .never u
  | error (u : Ty) : StandsFor r b .error u
  | toError (t : Ty) : StandsFor r b t .error
  | bound {x : String} {i : Nat} {d : DeclId} {args : List Ty}
    (h : .interface d args ∈ b.get (.param x i)) : StandsFor r b (.param x i) (.interface d args)
  | implements {t : Ty} {d : DeclId} {args : List Ty} (h : r.implements t (.interface d args) = true) :
    StandsFor r b t (.interface d args)
  | member {t : Ty} {ts : List Ty} (ht : t.isUnion = false) (h : t ∈ ts) : StandsFor r b t (.union ts)
  | members {ts us : List Ty} (h : ∀ t ∈ ts, t ∈ us) : StandsFor r b (.union ts) (.union us)
  | reference {m n : Bool} {t u : Ty} (hm : n = true → m = true) (h : t = u ∨ u = .unit) :
    StandsFor r b (.reference m t) (.reference n u)
  | pointer {m n : Bool} {t u : Ty} (hm : n = true → m = true) (h : t = u ∨ u = .unit) :
    StandsFor r b (.pointer m t) (.pointer n u)
  | nil (m : Bool) (u : Ty) : StandsFor r b .untypedNil (.pointer m u)
  | none (u : Ty) : StandsFor r b .untypedNone (.option u)
  | widens {p q : Primitive} (h : p.widensTo q = true) : StandsFor r b (.prim p) (.prim q)
  | backing {d : DeclId} {args is : List Ty} {q : Primitive} {vs : List String}
    (h : r.kind? d = some (.enum (.prim q) vs is)) : StandsFor r b (.named d args) (.prim q)
  | option {t u : Ty} (h : StandsFor r b t u) : StandsFor r b t (.option u)
  | result {t u e : Ty} (h : StandsFor r b t u) : StandsFor r b t (.result u e)

variable {r : Registry} {b : Bounds} {t u v : Ty}

theorem behind_iff {m n : Bool} :
    ((m || !n) && (t == u || u == .unit)) = true ↔ (n = true → m = true) ∧ (t = u ∨ u = .unit) := by
  cases m <;> cases n <;> simp

theorem standsFor_of_assignableDirect (h : r.assignableDirect b t u = true) : r.StandsFor b t u := by
  unfold assignableDirect at h
  split at h
  · split at h
    · exact .bound (List.contains_iff_mem.mp h)
    · exact .implements h
  · split at h
    · exact .members fun t ht => List.contains_iff_mem.mp (List.all_eq_true.mp h t ht)
    · next hunion =>
      refine .member ?_ (List.contains_iff_mem.mp h)
      cases t <;> first | rfl | exact absurd rfl (hunion _)
  · split at h
    · obtain ⟨hm, hbehind⟩ := behind_iff.mp h
      exact .reference hm hbehind
    · cases h
  · split at h
    · obtain ⟨hm, hbehind⟩ := behind_iff.mp h
      exact .pointer hm hbehind
    · exact .nil _ _
    · cases h
  · split at h
    · exact .none _
    · cases h
  · split at h
    · exact .widens h
    · split at h
      · next hkind =>
        cases eq_of_beq h
        exact .backing hkind
      · cases h
    · cases h
  · cases h

theorem standsFor_of_assignableFlat (h : r.assignableFlat b t u = true) : r.StandsFor b t u := by
  simp only [assignableFlat, Bool.or_eq_true, beq_iff_eq] at h
  rcases h with (((rfl | hnever) | herror) | herror) | hdirect
  · exact .same t
  · exact Ty.eq_never_of_isNever hnever ▸ .never u
  · exact Ty.eq_error_of_isError herror ▸ .error u
  · exact Ty.eq_error_of_isError herror ▸ .toError t
  · exact standsFor_of_assignableDirect hdirect

theorem standsFor_of_assignableIn (h : r.assignableIn b t u = true) : r.StandsFor b t u := by
  induction u using Ty.parts_induction with
  | h u ih =>
    cases u with
    | option w =>
      rcases Bool.or_eq_true_iff.mp h with hflat | hinner
      · exact standsFor_of_assignableFlat hflat
      · exact .option (ih w (by simp [Ty.parts]) hinner)
    | result w e =>
      rcases Bool.or_eq_true_iff.mp h with hflat | hinner
      · exact standsFor_of_assignableFlat hflat
      · exact .result (ih w (by simp [Ty.parts]) hinner)
    | _ => exact standsFor_of_assignableFlat h

theorem StandsFor.assignableIn (h : r.StandsFor b t u) : r.assignableIn b t u = true := by
  induction h with
  | same t => exact assignableIn_self r b t
  | never u => exact never_assignableIn r b u
  | error u => exact error_assignableIn r b u
  | toError t => exact assignableIn_error r b t
  | bound h => exact assignableIn_of_direct (List.contains_iff_mem.mpr h)
  | @implements t d args h =>
    cases t
    case named => exact assignableIn_of_direct h
    all_goals cases h
  | @member t ts ht h =>
    refine assignableIn_of_direct ?_
    cases t
    case union => cases ht
    all_goals exact List.contains_iff_mem.mpr h
  | members h =>
    exact assignableIn_of_direct (List.all_eq_true.mpr fun t ht => List.contains_iff_mem.mpr (h t ht))
  | reference hm h | pointer hm h => exact assignableIn_of_direct (behind_iff.mpr ⟨hm, h⟩)
  | nil | none => exact assignableIn_of_direct rfl
  | widens h => exact assignableIn_of_direct h
  | @backing d args is q vs h =>
    refine assignableIn_of_direct ?_
    rw [assignableDirect, h]
    exact beq_self_eq_true _
  | option _ ih => exact assignableIn_option ih
  | result _ ih => rw [Registry.assignableIn, ih, Bool.or_true]

theorem assignableIn_iff : r.assignableIn b t u = true ↔ r.StandsFor b t u :=
  ⟨standsFor_of_assignableIn, StandsFor.assignableIn⟩

def isEnum (r : Registry) : Ty → Bool
  | .named d _ =>
    match r.kind? d with
    | some (.enum ..) => true
    | _ => false
  | _ => false

theorem isEnum_named {d : DeclId} {args is : List Ty} {u : Ty} {vs : List String}
    (h : r.kind? d = some (.enum u vs is)) : r.isEnum (.named d args) = true := by
  rw [isEnum, h]

theorem eq_or_unit_trans (h : t = u ∨ u = .unit) (k : u = v ∨ v = .unit) : t = v ∨ v = .unit := by
  rcases k with rfl | rfl
  · exact h
  · exact .inr rfl

namespace StandsFor

theorem trans_of_bare (hu : u.isBare = true) (h : r.StandsFor b t u) (k : r.StandsFor b u v) :
    r.StandsFor b t v := by
  rcases assignableIn_bare hu h.assignableIn with rfl | rfl | rfl
  · exact k
  · exact .never v
  · exact .error v

theorem trans (hu : u ≠ .error) (ht : r.isEnum t = false) (hv : ∀ ts, v.literalTarget ≠ .union ts)
    (h : r.StandsFor b t u) (k : r.StandsFor b u v) : r.StandsFor b t v := by
  induction k with
  | same => exact h
  | error => exact absurd rfl hu
  | toError => exact .toError t
  | never v => exact h.trans_of_bare rfl (.never v)
  | nil m v => exact h.trans_of_bare rfl (.nil m v)
  | none v => exact h.trans_of_bare rfl (.none v)
  | backing k => exact h.trans_of_bare rfl (.backing k)
  | @implements u d args k =>
    cases u
    case named => exact h.trans_of_bare rfl (.implements k)
    all_goals cases k
  | member | members => exact absurd rfl (hv _)
  | bound k =>
    cases h with
    | same => exact .bound k
    | never => exact .never _
    | error => exact .error _
  | reference hm k =>
    cases h with
    | same => exact .reference hm k
    | never => exact .never _
    | error => exact .error _
    | reference hm' h => exact .reference (hm' ∘ hm) (eq_or_unit_trans h k)
  | pointer hm k =>
    cases h with
    | same => exact .pointer hm k
    | never => exact .never _
    | error => exact .error _
    | pointer hm' h => exact .pointer (hm' ∘ hm) (eq_or_unit_trans h k)
    | nil => exact .nil _ _
  | widens k =>
    cases h with
    | same => exact .widens k
    | never => exact .never _
    | error => exact .error _
    | widens h => exact .widens (Primitive.widensTo_trans h k)
    -- The backing type of an enum widens, but the enum does not.
    | backing h => exact absurd (ht.symm.trans (isEnum_named h)) Bool.false_ne_true
  | option _ ih => exact .option (ih hu hv h)
  | result _ ih => exact .result (ih hu hv h)

end StandsFor

theorem assignableIn_trans (hu : u ≠ .error) (ht : r.isEnum t = false)
    (hv : ∀ ts, v.literalTarget ≠ .union ts) (h : r.assignableIn b t u = true) (k : r.assignableIn b u v = true) :
    r.assignableIn b t v = true :=
  assignableIn_iff.mpr ((assignableIn_iff.mp h).trans hu ht hv (assignableIn_iff.mp k))

theorem assignableIn_trans_bound :
    let T := Ty.param "T" 0
    let shown := Ty.option (.interface 0 [])
    let attempt := Ty.result shown (.prim .string)
    let b : Bounds := [(T, [.interface 0 []])]
    Registry.assignableIn {} b T shown = true ∧ Registry.assignableIn {} b shown attempt = true ∧
      Registry.assignableIn {} b T attempt = true := by
  intro T shown attempt b
  have hshown : Registry.assignableIn {} b T shown = true := by rfl
  have hattempt : Registry.assignableIn {} b shown attempt = true := by rfl
  have herror : shown ≠ .error := show Ty.option _ ≠ _ from nofun
  have htarget (ts : List Ty) : attempt.literalTarget ≠ .union ts := show Ty.interface 0 [] ≠ _ from nofun
  exact ⟨hshown, hattempt, assignableIn_trans herror rfl htarget hshown hattempt⟩

end Registry

end TypeFlow
