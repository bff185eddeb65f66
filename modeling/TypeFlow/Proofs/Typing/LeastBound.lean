import TypeFlow.Proofs.Typing.UpperBound

namespace TypeFlow

def Ty.optionDepth : Ty → Nat
  | option t => t.optionDepth + 1
  | _ => 0

namespace Registry

inductive Below (r : Registry) : Ty → Ty → Prop
  | refl (t : Ty) : Below r t t
  | never (t : Ty) : Below r .never t
  | none (t : Ty) : Below r .untypedNone (.option t)
  | nil (m : Bool) (t : Ty) : Below r .untypedNil (.pointer m t)
  | interface {t i : Ty} (h : i ∈ r.interfacesOf t) : Below r t i
  | lift {t u : Ty} (h : Below r t u) : Below r t (.option u)
  | option {t u : Ty} (h : Below r t u) : Below r (.option t) (.option u)

variable {r : Registry} {ids : Ty → Nat} {a b c d t u i : Ty} {ts us : List Ty}

theorem optionDepth_of_mem_interfacesOf (h : i ∈ r.interfacesOf t) : t.optionDepth = 0 := by
  cases t <;> first | rfl | cases h

theorem mem_interfacesOf_self (r : Registry) (h : i.isInterface = true) : t ∈ r.interfacesOf i ↔ t = i := by
  cases i <;> cases h
  exact List.mem_singleton

namespace Below

theorem optionDepth_le (h : r.Below t u) : t.optionDepth ≤ u.optionDepth := by
  induction h with
  | refl => exact Nat.le_refl _
  | never | none | nil => exact Nat.zero_le _
  | interface h => exact optionDepth_of_mem_interfacesOf h ▸ Nat.zero_le _
  | lift _ ih => exact Nat.le_succ_of_le ih
  | option _ ih => exact Nat.succ_le_succ ih

theorem cases_of_mem_interfacesOf (hi : i ∈ r.interfacesOf t) (h : r.Below t u) :
    t = u ∨ u ∈ r.interfacesOf t ∨ ∃ v, u = .option v ∧ r.Below t v := by
  cases h with
  | refl => exact .inl rfl
  | never | none | nil | option => cases hi
  | interface h => exact .inr (.inl h)
  | lift h => exact .inr (.inr ⟨_, rfl, h⟩)

theorem eq_of_bare (hr : r.ListsInterfaces) (hu : u.isBare = true) (h : r.Below t u) : t = u ∨ t = .never := by
  cases h with
  | refl => exact .inl rfl
  | never => exact .inr rfl
  | none | nil | lift | option => cases hu
  | interface h =>
    have hi := isInterface_of_mem_interfacesOf hr h
    cases u
    case interface => cases hu
    all_goals cases hi

theorem antisymm (hr : r.ListsInterfaces) (h : r.Below t u) (k : r.Below u t) : t = u := by
  induction h with
  | refl => rfl
  | never u => exact ((eq_of_bare hr rfl k).elim id id).symm
  | none | nil => rcases eq_of_bare hr rfl k with h | h <;> cases h
  | @interface t i h =>
    have hi := isInterface_of_mem_interfacesOf hr h
    rcases cases_of_mem_interfacesOf ((mem_interfacesOf_self r hi).mpr rfl) k with heq | hmem | ⟨v, rfl, -⟩
    · exact heq.symm
    · exact (mem_interfacesOf_self r hi).mp hmem
    · cases h
  | lift h _ =>
    have hsucc := k.optionDepth_le
    exact absurd (Nat.le_trans hsucc h.optionDepth_le) (Nat.not_succ_le_self _)
  | option h ih =>
    cases k with
    | refl => rfl
    | interface k => cases k
    | lift k =>
      have hsucc := k.optionDepth_le
      exact absurd (Nat.le_trans hsucc h.optionDepth_le) (Nat.not_succ_le_self _)
    | option k => rw [ih k]

end Below

theorem rising_below (hr : r.ListsInterfaces) (t : Ty) : r.Rising fun u => u = .error ∨ r.Below t u where
  error := .inl rfl
  never h u := by
    rcases h with h | h
    · cases h
    · rcases h.eq_of_bare hr rfl with rfl | rfl <;> exact .inr (.never u)
  none h u := by
    rcases h with h | h
    · cases h
    · rcases h.eq_of_bare hr rfl with rfl | rfl
      · exact .inr (.none u)
      · exact .inr (.never _)
  nil h m u := by
    rcases h with h | h
    · cases h
    · rcases h.eq_of_bare hr rfl with rfl | rfl
      · exact .inr (.nil m u)
      · exact .inr (.never _)
  option herror h := .inr (.lift (h.resolve_left herror))
  interface {u i} h hi := by
    cases u <;> simp only [interfacesOf, List.not_mem_nil, List.mem_singleton] at hi
    case interface => exact hi ▸ h
    case named =>
      rcases h with h | h
      · cases h
      · rcases h.eq_of_bare hr rfl with rfl | rfl
        · exact .inr (.interface hi)
        · exact .inr (.never i)

theorem below_of_none (hr : r.ListsInterfaces) (hnever : t ≠ .never) (htyped : t.isUntyped = false)
    (hplain : t.optionInner = none) (h : r.Below .untypedNone d) (k : r.Below t d) : r.Below (.option t) d := by
  cases h with
  | refl =>
    rcases k.eq_of_bare hr rfl with rfl | rfl
    · cases htyped
    · exact absurd rfl hnever
  | interface h => cases h
  | none u | lift h =>
    cases k with
    | refl | option => cases hplain
    | never => exact absurd rfl hnever
    | none => cases htyped
    | interface k => cases isInterface_of_mem_interfacesOf hr k
    | lift k => exact .option k

theorem below_of_commonInterfaces (hr : r.ListsInterfaces) (hne : a ≠ b) (hi : r.commonInterfaces a b = [i])
    (ha : r.Below a d) (hb : r.Below b d) : r.Below i d := by
  have hcommon {u : Ty} : u ∈ r.interfacesOf a ∧ u ∈ r.interfacesOf b ↔ u = i := by
    rw [← mem_commonInterfaces, hi, List.mem_singleton]
  obtain ⟨hia, hib⟩ := hcommon.mpr rfl
  induction d using Ty.parts_induction with
  | h d ih =>
    rcases ha.cases_of_mem_interfacesOf hia with rfl | hda | ⟨v, rfl, hav⟩
    · rcases hb.cases_of_mem_interfacesOf hib with heq | hdb | ⟨v, rfl, -⟩
      · exact absurd heq.symm hne
      · have haa := (mem_interfacesOf_self r (isInterface_of_mem_interfacesOf hr hdb)).mpr rfl
        exact hcommon.mp ⟨haa, hdb⟩ ▸ .refl a
      · cases hia
    · rcases hb.cases_of_mem_interfacesOf hib with rfl | hdb | ⟨v, rfl, -⟩
      · have hbb := (mem_interfacesOf_self r (isInterface_of_mem_interfacesOf hr hda)).mpr rfl
        exact hcommon.mp ⟨hda, hbb⟩ ▸ .refl b
      · exact hcommon.mp ⟨hda, hdb⟩ ▸ .refl d
      · cases isInterface_of_mem_interfacesOf hr hda
    · rcases hb.cases_of_mem_interfacesOf hib with rfl | hdb | ⟨w, heq, hbw⟩
      · cases hib
      · cases isInterface_of_mem_interfacesOf hr hdb
      · cases heq
        exact .lift (ih v List.mem_cons_self hav hbw)

theorem below_of_joins (hr : r.ListsInterfaces) (h : r.Joins a b c) (ha : r.Below a d) (hb : r.Below b d) :
    r.Below c d := by
  induction h with
  | error => exact ha
  | same => exact ha
  | never => exact hb
  | none _ hnever htyped hplain => exact below_of_none hr hnever htyped hplain ha hb
  | noneOption => exact hb
  | nil => exact hb
  | option => exact hb
  | interface hne hi => exact below_of_commonInterfaces hr hne hi ha hb
  | symm _ ih => exact ih hb ha

theorem ne_error_of_joins (hr : r.ListsInterfaces) (h : r.Joins a b c) (ha : a ≠ .error) (hb : b ≠ .error) :
    c ≠ .error := by
  induction h with
  | error => exact ha
  | same => exact ha
  | never => exact hb
  | none => nofun
  | noneOption => exact hb
  | nil => exact hb
  | option => exact hb
  | @interface a b i _ hi =>
    rintro rfl
    obtain ⟨hmem, -⟩ := mem_commonInterfaces.mp (hi ▸ List.mem_singleton_self Ty.error)
    cases isInterface_of_mem_interfacesOf hr hmem
  | symm _ ih => exact ih hb ha

theorem below_joinAll (hr : r.ListsInterfaces) (h : r.joinAll ids ts = .ok c) (ht : t ∈ ts) :
    c = .error ∨ r.Below t c :=
  (rising_below hr t).joinAll h ht (.inr (.refl t))

theorem joinAll_below (hr : r.ListsInterfaces) (h : r.joinAll ids ts = .ok c) (k : ∀ t ∈ ts, r.Below t d) :
    r.Below c d :=
  foldlM_join_of_forall (P := fun u => r.Below u d) (below_of_joins hr) h (.never d) k

theorem joinAll_eq_error_iff (hr : r.ListsInterfaces) (h : r.joinAll ids ts = .ok c) : c = .error ↔ .error ∈ ts := by
  constructor
  · refine fun heq => Classical.byContradiction fun hnot => ?_
    have hts : ∀ t ∈ ts, t ≠ .error := fun t ht ht' => hnot (ht' ▸ ht)
    exact foldlM_join_of_forall (P := (· ≠ .error)) (ne_error_of_joins hr) h nofun hts heq
  · intro hmem
    have hrising : r.Rising (· = .error) :=
      ⟨rfl, nofun, nofun, nofun, fun herror h => absurd h herror, fun h hi => by subst h; cases hi⟩
    exact hrising.joinAll h hmem rfl

theorem joinAll_perm (hr : r.ListsInterfaces) (hperm : ts.Perm us) (hc : r.joinAll ids ts = .ok c)
    (hd : r.joinAll ids us = .ok d) : c = d := by
  by_cases herror : .error ∈ ts
  · rw [(joinAll_eq_error_iff hr hc).mpr herror, (joinAll_eq_error_iff hr hd).mpr (hperm.mem_iff.mp herror)]
  · have hbelow {ts us : List Ty} {c d : Ty} (hperm : ts.Perm us) (hc : r.joinAll ids ts = .ok c)
        (hd : r.joinAll ids us = .ok d) (herror : .error ∉ us) : r.Below c d := by
      refine joinAll_below hr hc fun t ht => ?_
      have hnot := mt (joinAll_eq_error_iff hr hd).mp herror
      exact (below_joinAll hr hd (hperm.mem_iff.mp ht)).resolve_left hnot
    exact (hbelow hperm hc hd (mt hperm.mem_iff.mpr herror)).antisymm hr (hbelow hperm.symm hd hc herror)

-- With `Log` and `Pipe[string]` in front there is no join.
theorem joinAll_perm_streams :
    let clock := Ty.named 4 []
    let log := Ty.named 3 []
    let pipe := Ty.named 2 [.prim .string]
    let shown := Ty.option (.interface 0 [])
    ∃ c d, streams.joinAll streamIds [clock, .never, log, pipe, .untypedNone, shown] = .ok c ∧
      streams.joinAll streamIds [pipe, clock, .never, log, shown, .untypedNone] = .ok d ∧ c = d := by
  intro clock log pipe shown
  have hc : streams.joinAll streamIds [clock, .never, log, pipe, .untypedNone, shown] = .ok shown := by rfl
  have hd : streams.joinAll streamIds [pipe, clock, .never, log, shown, .untypedNone] = .ok shown := by rfl
  exact ⟨_, _, hc, hd, joinAll_perm (by decide) (by decide) hc hd⟩

end Registry

end TypeFlow
