import TypeFlow.Proofs.Lists
import TypeFlow.Proofs.Ty.Occurrence
import TypeFlow.Proofs.Typing.Assign
import TypeFlow.Proofs.Typing.Joins

namespace TypeFlow

namespace Registry

inductive Joins (r : Registry) : Ty → Ty → Ty → Prop
  | error (t : Ty) : Joins r .error t .error
  | same (t : Ty) : Joins r t t t
  | never (t : Ty) : Joins r .never t t
  | none {t : Ty} (herror : t ≠ .error) (hnever : t ≠ .never) (htyped : t.isUntyped = false)
    (hplain : t.optionInner = none) : Joins r .untypedNone t (.option t)
  | noneOption (t : Ty) : Joins r .untypedNone (.option t) (.option t)
  | nil (m : Bool) (t : Ty) : Joins r .untypedNil (.pointer m t) (.pointer m t)
  | option {t : Ty} (herror : t ≠ .error) : Joins r t (.option t) (.option t)
  | interface {a b i : Ty} (hne : a ≠ b) (h : r.commonInterfaces a b = [i]) : Joins r a b i
  | symm {a b c : Ty} (h : Joins r a b c) : Joins r b a c

variable {r : Registry} {ids : Ty → Nat} {a b c : Ty}

theorem joins_of_joinUntyped (herror : b ≠ .error) (hnever : b ≠ .never) (h : joinUntyped a b = some c) :
    r.Joins a b c := by
  have htyped := (isUntyped_of_joinUntyped h).2
  unfold joinUntyped at h
  rw [htyped, if_neg Bool.false_ne_true] at h
  split at h
  · split at h
    · cases h
      exact .noneOption _
    · next hplain =>
      cases h
      refine .none herror hnever htyped ?_
      cases b <;> first | rfl | exact absurd rfl (hplain _)
  · split at h
    · cases h
      exact .nil _ _
    · cases h
  · cases h

theorem joins_of_join (h : r.join ids a b = .ok c) : r.Joins a b c := by
  unfold join at h
  split at h
  · next herror =>
    cases h
    rcases Bool.or_eq_true_iff.mp herror with herror | herror
    · cases Ty.eq_error_of_isError herror
      exact .error b
    · cases Ty.eq_error_of_isError herror
      exact .symm (.error a)
  next herror =>
  have ha : a ≠ .error := by
    rintro rfl
    exact herror rfl
  have hb : b ≠ .error := by
    rintro rfl
    exact herror (Bool.or_true _)
  split at h
  · next heq =>
    cases h
    exact eq_of_beq heq ▸ .same a
  next heq =>
  split at h
  · next hnever =>
    cases h
    exact Ty.eq_never_of_isNever hnever ▸ .never b
  next hanever =>
  split at h
  · next hnever =>
    cases h
    exact Ty.eq_never_of_isNever hnever ▸ .symm (.never a)
  next hbnever =>
  split at h
  · next t ht =>
    cases h
    rcases Option.or_eq_some_iff.mp ht with ht | ⟨-, ht⟩
    · exact joins_of_joinUntyped hb (fun h => hbnever (h ▸ rfl)) ht
    · exact .symm (joins_of_joinUntyped ha (fun h => hanever (h ▸ rfl)) ht)
  split at h
  · next hinner =>
    cases h
    cases eq_option_of_optionInner (eq_of_beq hinner)
    exact .symm (.option hb)
  split at h
  · next hinner =>
    cases h
    cases eq_option_of_optionInner (eq_of_beq hinner)
    exact .option ha
  unfold joinInterfaces at h
  split at h
  · cases h
  · next hi =>
    cases h
    exact .interface (fun h => heq (beq_iff_eq.mpr h)) hi
  · cases h

theorem foldlM_join_of_mem {P : Ty → Prop} (hP : ∀ {a b c}, r.Joins a b c → P a ∨ P b → P c) {ts : List Ty}
    (h : ts.foldlM (r.join ids) a = .ok c) (k : P a ∨ ∃ t ∈ ts, P t) : P c := by
  induction ts generalizing a with
  | nil =>
    cases h
    exact k.resolve_right (by simp)
  | cons b ts ih =>
    obtain ⟨d, hd, h⟩ := exists_of_bind_ok h
    have hjoins := joins_of_join hd
    refine ih h ?_
    rcases k with ha | ⟨t, ht, hPt⟩
    · exact .inl (hP hjoins (.inl ha))
    · rcases List.mem_cons.mp ht with rfl | ht
      · exact .inl (hP hjoins (.inr hPt))
      · exact .inr ⟨t, ht, hPt⟩

theorem foldlM_join_of_forall {P : Ty → Prop} (hP : ∀ {a b c}, r.Joins a b c → P a → P b → P c) {ts : List Ty}
    (h : ts.foldlM (r.join ids) a = .ok c) (ha : P a) (k : ∀ t ∈ ts, P t) : P c := by
  induction ts generalizing a with
  | nil =>
    cases h
    exact ha
  | cons b ts ih =>
    obtain ⟨d, hd, h⟩ := exists_of_bind_ok h
    obtain ⟨hb, hts⟩ := List.forall_mem_cons.mp k
    exact ih h (hP (joins_of_join hd) ha hb) hts

structure Rising (r : Registry) (P : Ty → Prop) : Prop where
  error : P .error
  never : P .never → ∀ t, P t
  none : P .untypedNone → ∀ t, P (.option t)
  nil : P .untypedNil → ∀ m t, P (.pointer m t)
  option : ∀ {t}, t ≠ .error → P t → P (.option t)
  interface : ∀ {t i}, P t → i ∈ r.interfacesOf t → P i

namespace Rising

variable {P : Ty → Prop} (hP : r.Rising P)

include hP

theorem joins (h : r.Joins a b c) (k : P a ∨ P b) : P c := by
  induction h with
  | error t => exact hP.error
  | same t => exact k.elim id id
  | never t => exact k.elim (fun h => hP.never h t) id
  | none herror _ _ _ => exact k.elim (fun h => hP.none h _) (hP.option herror)
  | noneOption t => exact k.elim (fun h => hP.none h t) id
  | nil m t => exact k.elim (fun h => hP.nil h m t) id
  | option herror => exact k.elim (hP.option herror) id
  | @interface a b i _ h =>
    obtain ⟨ha, hb⟩ := mem_commonInterfaces.mp (h ▸ List.mem_singleton_self i)
    exact k.elim (fun h => hP.interface h ha) fun h => hP.interface h hb
  | symm _ ih => exact ih k.symm

theorem joinAll {ts : List Ty} {t : Ty} (h : r.joinAll ids ts = .ok c) (ht : t ∈ ts) (k : P t) : P c :=
  foldlM_join_of_mem hP.joins h (.inr ⟨t, ht, k⟩)

end Rising

def ListsInterfaces (r : Registry) : Prop := ∀ d ∈ r.decls, ∀ i ∈ d.implements, i.isInterface = true

instance (r : Registry) : Decidable r.ListsInterfaces :=
  inferInstanceAs (Decidable (∀ d ∈ r.decls, ∀ i ∈ d.implements, i.isInterface = true))

theorem isInterface_of_mem_interfacesOf (hr : r.ListsInterfaces) {t i : Ty} (h : i ∈ r.interfacesOf t) :
    i.isInterface = true := by
  cases t <;> simp only [interfacesOf, List.not_mem_nil, List.mem_singleton] at h
  case interface d args => exact h ▸ rfl
  case named d args =>
    obtain ⟨u, hu, rfl⟩ := List.mem_map.mp h
    cases hinfo : r.decl? d with
    | none => simp [hinfo] at hu
    | some info =>
      rw [hinfo] at hu
      have hlisted := hr info (List.mem_of_getElem? hinfo) u hu
      cases u <;> cases hlisted
      obtain ⟨us, hus⟩ := Ty.substParams_interface args _ _
      rw [hus]
      rfl

theorem rising_assignableIn (hr : r.ListsInterfaces) (b : Bounds) (t : Ty) :
    r.Rising fun u => r.assignableIn b t u = true := by
  have hleast {u : Ty} (h : t = .never ∨ t = .error) : r.assignableIn b t u = true := by
    rcases h with rfl | rfl
    · exact never_assignableIn r b u
    · exact error_assignableIn r b u
  refine ⟨assignableIn_error r b t, fun h u => ?_, fun h u => ?_, fun h m u => ?_,
    fun _ h => assignableIn_option h, fun {u i} h hi => ?_⟩
  · exact hleast ((assignableIn_bare rfl h).elim .inl id)
  · rcases assignableIn_bare rfl h with rfl | h
    · exact assignableIn_of_direct rfl
    · exact hleast h
  · rcases assignableIn_bare rfl h with rfl | h
    · exact assignableIn_of_direct rfl
    · exact hleast h
  · have hinterface := isInterface_of_mem_interfacesOf hr hi
    cases u <;> simp only [interfacesOf, List.not_mem_nil, List.mem_singleton] at hi
    case interface => exact hi ▸ h
    case named =>
      rcases assignableIn_bare rfl h with rfl | h
      · exact assignableIn_of_mem_interfacesOf hi hinterface
      · exact hleast h

theorem assignableIn_joinAll (hr : r.ListsInterfaces) {b : Bounds} {ts : List Ty} {t : Ty}
    (h : r.joinAll ids ts = .ok c) (ht : t ∈ ts) : r.assignableIn b t c = true :=
  (rising_assignableIn hr b t).joinAll h ht (assignableIn_self r b t)

end Registry

end TypeFlow
