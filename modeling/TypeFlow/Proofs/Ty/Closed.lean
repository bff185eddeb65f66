import TypeFlow.Ty.Build

namespace TypeFlow.Ty

def isStructural : Ty → Bool
  | named .. | interface .. | param .. | var _ | error | untypedNone | untypedNil => false
  | _ => true

theorem eq_error_of_isError {t : Ty} (h : t.isError = true) : t = error := by
  cases t <;> first | rfl | cases h

theorem eq_never_of_isNever {t : Ty} (h : t.isNever = true) : t = never := by
  cases t <;> first | rfl | cases h

structure Closed (good : Ty → Prop) : Prop where
  part : ∀ {t u}, good t → u ∈ t.parts → good u
  build : ∀ {t : Ty}, t.isStructural = true → (∀ u ∈ t.parts, good u) → good t

namespace Closed

variable {good : Ty → Prop} (L : Closed good)

include L

theorem leaf {t : Ty} (h : t.isStructural = true) (k : t.parts = []) : good t :=
  L.build h (by simp [k])

theorem single {t u : Ty} (h : t.isStructural = true) (k : t.parts = [u]) (hu : good u) : good t :=
  L.build h (by simpa [k] using hu)

theorem pair {t u v : Ty} (h : t.isStructural = true) (k : t.parts = [u, v]) (hu : good u)
    (hv : good v) : good t :=
  L.build h (by simpa [k] using ⟨hu, hv⟩)

theorem deref {t : Ty} (h : good t) : good t.deref := by
  induction t using Ty.parts_induction with
  | h t ih =>
    cases t
    case reference m u => exact ih u (by simp [Ty.parts]) (L.part h (by simp [Ty.parts]))
    case pointer m u => exact ih u (by simp [Ty.parts]) (L.part h (by simp [Ty.parts]))
    all_goals exact h

theorem optionInner {t u : Ty} (h : good t) (k : t.optionInner = some u) : good u := by
  cases t <;> simp only [Ty.optionInner, reduceCtorEq, Option.some.injEq] at k
  subst k
  exact L.part h (by simp [Ty.parts])

theorem mkTuple {ts : List Ty} (h : ∀ t ∈ ts, good t) : good (.mkTuple ts) := by
  match ts with
  | [] => exact L.leaf rfl rfl
  | [t] => exact h t (by simp)
  | t :: u :: us => exact L.build rfl h

theorem unionParts {t u : Ty} (h : good t) (k : u ∈ t.unionParts) : good u := by
  cases t <;> simp only [Ty.unionParts, List.mem_singleton, List.not_mem_nil] at k
  case union ts => exact L.part h k
  all_goals exact k ▸ h

theorem ofMembers {ts : List Ty} (h : ∀ t ∈ ts, good t) : good (.ofMembers ts) := by
  match ts with
  | [] => exact L.leaf rfl rfl
  | [t] => exact h t (by simp)
  | t :: u :: us => exact L.build rfl h

theorem mkUnion {ts : List Ty} (h : ∀ t ∈ ts, good t) : good (.mkUnion ts) := by
  refine L.ofMembers fun u hu => ?_
  obtain ⟨t, ht, hut⟩ := List.mem_flatMap.mp (Ty.mem_sorted.mp hu)
  exact L.unionParts (h t ht) hut

end Closed

end TypeFlow.Ty
