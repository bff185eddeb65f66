import TypeFlow.Infer.Literal
import TypeFlow.Proofs.Flow.Values

namespace TypeFlow

namespace Registry

inductive Includes (r : Registry) : Ty → Ty → Prop
  | same {t : Ty} : r.Includes t t
  | implements {t : Ty} {d : DeclId} {args : List Ty} :
    r.implements t (.interface d args) = true → r.Includes t (.interface d args)
  | member {t : Ty} {ts : List Ty} : t ∈ ts → r.Includes t (.union ts)
  | members {ts us : List Ty} : (∀ t ∈ ts, t ∈ us) → r.Includes (.union ts) (.union us)
  | option {t u : Ty} : r.Includes t u → r.Includes t (.option u)

-- A type that ends in `error` accepts everything: there a value is kept only where the type has it.
def Carries (r : Registry) (v : Option Ty) (t u : Ty) : Prop :=
  r.Includes t u ∨ v = none ∧ u.optionInner.isSome = true ∨
    u.literalTarget = .error ∧ r.Inhabits v u

variable {r : Registry} {v : Option Ty} {t u : Ty}

theorem eq_some_of_inhabits (ht : t.isTag = true) (h : r.Inhabits v t) : v = some t := by
  cases h with
  | same => rfl
  | member | implements | absent | present => cases ht

theorem Includes.inhabits (h : r.Includes t u) (hv : IsTag v) (k : r.Inhabits v t) :
    r.Inhabits v u := by
  induction h with
  | same => exact k
  | @implements t d args h =>
    have ht : t.isTag = true := by
      unfold Registry.implements at h
      split at h
      · rfl
      · cases h
    rw [eq_some_of_inhabits ht k]
    exact .implements h
  | member h => exact .member h k
  | members h =>
    obtain ⟨w, hw, k⟩ := (inhabits_union hv).mp k
    exact .member (h w hw) k
  | option h ih => exact .present (ih k)

theorem Carries.inhabits (h : r.Carries v t u) (hv : IsTag v) (k : r.Inhabits v t) :
    r.Inhabits v u := by
  rcases h with h | ⟨rfl, h⟩ | ⟨-, h⟩
  · exact h.inhabits hv k
  · cases u <;> cases h
    exact .absent
  · exact h

theorem not_inhabits_of_closed (hv : IsTag v) (h : t.isNever = true ∨ t.isError = true ∨ t.isUntyped = true) :
    ¬ r.Inhabits v t := by
  intro k
  have ht : t.isTag = false ∧ t.isUnion = false ∧ t.optionInner = none ∧ t.isInterface = false := by
    cases t <;> simp_all [Ty.isNever, Ty.isError, Ty.isUntyped, Ty.isTag, Ty.isUnion, Ty.optionInner,
      Ty.isInterface]
  cases k with
  | same => exact absurd (hv _ rfl) (by simp [ht.1])
  | member => cases ht.2.1
  | implements => cases ht.2.2.2
  | absent | present => cases ht.2.2.1

theorem sizeOf_le_of_inhabits {w : Ty} (hw : ∀ d args, w ≠ .named d args) (h : r.Inhabits (some w) t) :
    sizeOf w ≤ sizeOf t := by
  generalize hv : some w = v at h
  induction h with
  | same =>
    cases hv
    exact Nat.le_refl _
  | @member v t ts hmem _ ih =>
    have hle := ih hv
    have hlt := Ty.sizeOf_lt_of_mem_parts (t := .union ts) hmem
    omega
  | @implements t d args h =>
    cases hv
    unfold Registry.implements at h
    split at h
    · exact absurd rfl (hw _ _)
    · cases h
  | absent => cases hv
  | present _ ih =>
    have hle := ih hv
    simp only [Ty.option.sizeOf_spec]
    omega

theorem assignable_cases (h : r.assignable t u = true) :
    r.assignableFlat [] t u = true ∨
      (∃ w, u = .option w ∧ r.assignable t w = true) ∨
      ∃ w e, u = .result w e ∧ r.assignable t w = true := by
  unfold assignable at h ⊢
  cases u with
  | option w =>
    rcases Bool.or_eq_true_iff.mp h with h | h
    · exact .inl h
    · exact .inr (.inl ⟨w, rfl, h⟩)
  | result w e =>
    rcases Bool.or_eq_true_iff.mp h with h | h
    · exact .inl h
    · exact .inr (.inr ⟨w, e, rfl, h⟩)
  | _ => exact .inl h

theorem assignableFlat_cases (hv : IsTag v) (k : r.Inhabits v t) (hu : u.isError = false)
    (h : r.assignableFlat [] t u = true) : t = u ∨ r.assignableDirect [] t u = true := by
  have hn : t.isNever = false := by
    cases hn : t.isNever
    · rfl
    · exact absurd k (not_inhabits_of_closed hv (.inl hn))
  have he : t.isError = false := by
    cases he : t.isError
    · rfl
    · exact absurd k (not_inhabits_of_closed hv (.inr (.inl he)))
  simpa [assignableFlat, hn, he, hu] using h

structure Converts (t u : Ty) : Prop where
  value : t.isTag = true
  target : u.isTag = true
  plain : ∀ a b, t ≠ .result a b

theorem assignableDirect_cases (h : r.assignableDirect [] t u = true) :
    r.Includes t u ∨ t.isUntyped = true ∨ Converts t u := by
  unfold assignableDirect at h
  split at h
  · split at h
    · simp [Bounds.get] at h
    · exact .inl (.implements h)
  · split at h
    · exact .inl (.members fun w hw => List.contains_iff_mem.mp (List.all_eq_true.mp h w hw))
    · exact .inl (.member (List.contains_iff_mem.mp h))
  · split at h
    · exact .inr (.inr ⟨rfl, rfl, nofun⟩)
    · cases h
  · split at h
    · exact .inr (.inr ⟨rfl, rfl, nofun⟩)
    · exact .inr (.inl rfl)
    · cases h
  · split at h
    · exact .inr (.inl rfl)
    · cases h
  · split at h
    · exact .inr (.inr ⟨rfl, rfl, nofun⟩)
    · exact .inr (.inr ⟨rfl, rfl, nofun⟩)
    · cases h
  · cases h

theorem includes_of_assignableFlat (hv : IsTag v) (k : r.Inhabits v t) (hu : u.isError = false)
    (h : r.assignableFlat [] t u = true) : r.Includes t u ∨ Converts t u := by
  rcases assignableFlat_cases hv k hu h with rfl | h
  · exact .inl .same
  · rcases assignableDirect_cases h with h | h | h
    · exact .inl h
    · exact absurd k (not_inhabits_of_closed hv (.inr (.inr h)))
    · exact .inr h

theorem isError_of_literalTarget (h : u.literalTarget ≠ .error) : u.isError = false := by
  cases u <;> first | rfl | exact absurd rfl h

theorem sizeOf_le_of_assignable {a b : Ty} (hu : u.literalTarget ≠ .error) (h : r.assignable t u = true)
    (k : r.Inhabits (some (.result a b)) t) : sizeOf (Ty.result a b) ≤ sizeOf u := by
  have hv : IsTag (some (.result a b)) := by
    rintro _ ⟨⟩
    rfl
  induction u using Ty.parts_induction with
  | h u ih =>
    rcases assignable_cases h with hflat | ⟨w, rfl, hw⟩ | ⟨w, e, rfl, hw⟩
    · rcases includes_of_assignableFlat hv k (isError_of_literalTarget hu) hflat with h | h
      · exact sizeOf_le_of_inhabits nofun (h.inhabits hv k)
      · cases eq_some_of_inhabits h.value k
        exact absurd rfl (h.plain a b)
    · have hle := ih w (by simp [Ty.parts]) hu hw
      simp only [Ty.option.sizeOf_spec]
      omega
    · have hle := ih w (by simp [Ty.parts]) hu hw
      simp only [Ty.result.sizeOf_spec] at hle ⊢
      omega

theorem carries_of_inhabits (h : r.assignable t u = true) (hv : IsTag v) (k : r.Inhabits v t)
    (l : r.Inhabits v u) : r.Carries v t u := by
  induction u using Ty.parts_induction with
  | h u ih =>
    by_cases hu : u.literalTarget = .error
    · exact .inr (.inr ⟨hu, l⟩)
    rcases assignable_cases h with hflat | ⟨w, rfl, hw⟩ | ⟨w, e, rfl, hw⟩
    · rcases includes_of_assignableFlat hv k (isError_of_literalTarget hu) hflat with h | h
      · exact .inl h
      · have heq := (eq_some_of_inhabits h.value k).symm.trans (eq_some_of_inhabits h.target l)
        cases heq
        exact .inl .same
    · rcases (inhabits_option hv).mp l with hnone | l
      · exact .inr (.inl ⟨hnone, rfl⟩)
      · rcases ih w (by simp [Ty.parts]) hw l with hcarries | ⟨hnone, -⟩ | ⟨herror, -⟩
        · exact .inl (.option hcarries)
        · exact .inr (.inl ⟨hnone, rfl⟩)
        · exact absurd herror hu
    · have heq : v = some (.result w e) := eq_some_of_inhabits rfl l
      subst heq
      have hcore : w.literalTarget ≠ .error := hu
      have hle := sizeOf_le_of_assignable hcore hw k
      simp only [Ty.result.sizeOf_spec] at hle
      omega

theorem carries_iff_inhabits (h : r.assignable t u = true) (hv : IsTag v) (k : r.Inhabits v t) :
    r.Carries v t u ↔ r.Inhabits v u :=
  ⟨fun hc => hc.inhabits hv k, carries_of_inhabits h hv k⟩

end Registry

structure Layer.Meets (r : Registry) (l m : Layer) (p : Path) (a b n : Narrowing) : Prop where
  left : (p, a) ∈ l.entries
  right : m.get p = some b
  merge : a.merge r b = some n
  kept : n.isTrivial = false

variable {r : Registry} {ρ : Valuation} {l m : Layer}

theorem Layer.mem_merge_iff {e : Path × Narrowing} :
    e ∈ (l.merge r m).entries ↔ ∃ a b, l.Meets r m e.1 a b e.2 := by
  unfold Layer.merge
  rw [List.mem_filterMap]
  constructor
  · rintro ⟨⟨p, a⟩, hmem, h⟩
    unfold Layer.mergeEntry at h
    split at h
    · cases h
    · next b hb =>
      split at h
      · next n hn =>
        split at h
        · cases h
        · next htrivial =>
          cases h
          exact ⟨a, b, hmem, hb, hn, Bool.eq_false_iff.mpr htrivial⟩
      · cases h
  · obtain ⟨p, n⟩ := e
    rintro ⟨a, b, hmem, hb, hn, htrivial⟩
    refine ⟨(p, a), hmem, ?_⟩
    have hb' : m.get p = some b := hb
    have hn' : a.merge r b = some n := hn
    simp [Layer.mergeEntry, hb', hn', show n.isTrivial = false from htrivial]

theorem Registry.assignable_self (t : Ty) : r.assignable t t = true := by
  have hflat : r.assignableFlat [] t t = true := by simp [Registry.assignableFlat]
  cases t with
  | option | result => exact Bool.or_eq_true_iff.mpr (.inl hflat)
  | _ => exact hflat

theorem Narrowing.assignable_merge {a b n : Narrowing} (h : a.merge r b = some n) :
    r.assignable a.ty n.ty = true ∧ r.assignable b.ty n.ty = true ∧
      ∀ t ∈ n.excluded, t ∈ a.excluded ∧ t ∈ b.excluded := by
  have hexcluded : ∀ t ∈ a.excluded.filter b.excludes, t ∈ a.excluded ∧ t ∈ b.excluded := by
    intro t ht
    obtain ⟨ha, hb⟩ := List.mem_filter.mp ht
    exact ⟨ha, List.contains_iff_mem.mp hb⟩
  unfold Narrowing.merge at h
  split at h
  · cases h
  · split at h
    · next hty =>
      cases h
      refine ⟨Registry.assignable_self _, ?_, hexcluded⟩
      rcases Bool.or_eq_true_iff.mp hty with hty | hty
      · rw [eq_of_beq hty]
        exact Registry.assignable_self _
      · exact hty
    · split at h
      · next hty =>
        cases h
        exact ⟨hty, Registry.assignable_self _, hexcluded⟩
      · cases h

theorem Narrowing.fits_iff_carries {a n : Narrowing} {v : Option Ty} (hv : IsTag v)
    (ha : r.assignable a.ty n.ty = true)
    (hexcluded : ∀ t ∈ n.excluded, t ∈ a.excluded) (h : a.Fits r v) :
    n.Fits r v ↔ r.Carries v a.ty n.ty := by
  rw [Registry.carries_iff_inhabits ha hv h.ty]
  exact ⟨fun hfit => hfit.ty, fun hty => ⟨hty, fun t ht => h.excluded t (hexcluded t ht)⟩⟩

theorem Layer.Consistent.get (h : l.Consistent r ρ) {p : Path} {n : Narrowing} (k : l.get p = some n) :
    n.Fits r (ρ.tag p) := h _ (mem_of_lookup k)

theorem Layer.consistent_merge_iff :
    (l.Consistent r ρ → ((l.merge r m).Consistent r ρ ↔
        ∀ p a b n, l.Meets r m p a b n → r.Carries (ρ.tag p) a.ty n.ty)) ∧
      (m.Consistent r ρ → ((l.merge r m).Consistent r ρ ↔
        ∀ p a b n, l.Meets r m p a b n → r.Carries (ρ.tag p) b.ty n.ty)) := by
  have hmem {p : Path} {a b n : Narrowing} (h : l.Meets r m p a b n) : (p, n) ∈ (l.merge r m).entries :=
    mem_merge_iff.mpr ⟨a, b, h⟩
  have hleft {p : Path} {a b n : Narrowing} (hl : l.Consistent r ρ) (h : l.Meets r m p a b n) :
      n.Fits r (ρ.tag p) ↔ r.Carries (ρ.tag p) a.ty n.ty := by
    obtain ⟨ha, -, hexcluded⟩ := Narrowing.assignable_merge h.merge
    exact Narrowing.fits_iff_carries (ρ.isTag p) ha (fun t ht => (hexcluded t ht).1)
      (hl _ h.left)
  have hright {p : Path} {a b n : Narrowing} (hm : m.Consistent r ρ) (h : l.Meets r m p a b n) :
      n.Fits r (ρ.tag p) ↔ r.Carries (ρ.tag p) b.ty n.ty := by
    obtain ⟨-, hb, hexcluded⟩ := Narrowing.assignable_merge h.merge
    exact Narrowing.fits_iff_carries (ρ.isTag p) hb (fun t ht => (hexcluded t ht).2)
      (hm.get h.right)
  refine ⟨fun hl => ⟨fun h p a b n k => (hleft hl k).mp (h _ (hmem k)), fun h e k => ?_⟩,
    fun hm => ⟨fun h p a b n k => (hright hm k).mp (h _ (hmem k)), fun h e k => ?_⟩⟩
  · obtain ⟨a, b, k⟩ := mem_merge_iff.mp k
    exact (hleft hl k).mpr (h _ _ _ _ k)
  · obtain ⟨a, b, k⟩ := mem_merge_iff.mp k
    exact (hright hm k).mpr (h _ _ _ _ k)

def Layer.armOf (f : Fact) : Layer :=
  ({} : Layer).apply {} ⟨⟨"x", []⟩, .union [.prim .i32, .prim .i64], f⟩

def narrowValue : Valuation where
  tag _ := some (.prim .i32)
  isTag := by
    rintro p _ ⟨⟩
    rfl

theorem Layer.not_consistent_merge_arms :
    (armOf (.is (.prim .i32))).Consistent {} narrowValue ∧
      ¬ ((armOf (.is (.prim .i32))).merge {} (armOf (.isNot (.prim .i32)))).Consistent {} narrowValue := by
  have harm : armOf (.is (.prim .i32)) =
      ⟨[(⟨"x", []⟩, ⟨.union [.prim .i32, .prim .i64], .prim .i32, []⟩)]⟩ := rfl
  have hleft : (armOf (.is (.prim .i32))).Consistent {} narrowValue := by
    rw [harm]
    exact List.forall_mem_singleton.mpr ⟨.same, nofun⟩
  refine ⟨hleft, fun hmerge => ?_⟩
  have hcarries := (Layer.consistent_merge_iff.1 hleft).mp hmerge ⟨"x", []⟩
    ⟨.union [.prim .i32, .prim .i64], .prim .i32, []⟩
    ⟨.union [.prim .i32, .prim .i64], .prim .i64, [.prim .i32]⟩
    ⟨.union [.prim .i32, .prim .i64], .prim .i64, []⟩
    ⟨List.mem_singleton.mpr rfl, rfl, rfl, rfl⟩
  rcases hcarries with h | ⟨h, -⟩ | ⟨h, -⟩ <;> cases h

end TypeFlow
