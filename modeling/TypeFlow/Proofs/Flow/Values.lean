import TypeFlow.Flow.Layer
import TypeFlow.Proofs.Lists

namespace TypeFlow

def Ty.isTag : Ty → Bool
  | .interface .. | .union _ | .option _ | .never | .error | .untypedNone | .untypedNil => false
  | _ => true

def IsTag (v : Option Ty) : Prop := ∀ t, v = some t → t.isTag = true

structure Valuation where
  tag : Path → Option Ty
  isTag : ∀ p, IsTag (tag p)

inductive Registry.Inhabits (r : Registry) : Option Ty → Ty → Prop
  | same {t : Ty} : r.Inhabits (some t) t
  | member {v : Option Ty} {t : Ty} {ts : List Ty} : t ∈ ts → r.Inhabits v t → r.Inhabits v (.union ts)
  | implements {t : Ty} {d : DeclId} {args : List Ty} :
    r.implements t (.interface d args) = true → r.Inhabits (some t) (.interface d args)
  | absent {t : Ty} : r.Inhabits none (.option t)
  | present {v : Option Ty} {t : Ty} : r.Inhabits v t → r.Inhabits v (.option t)

structure Narrowing.Fits (r : Registry) (v : Option Ty) (n : Narrowing) : Prop where
  ty : r.Inhabits v n.ty
  excluded : ∀ t ∈ n.excluded, ¬ r.Inhabits v t

def Layer.Consistent (r : Registry) (ρ : Valuation) (l : Layer) : Prop :=
  ∀ e ∈ l.entries, e.2.Fits r (ρ.tag e.1)

inductive Ty.Plain : Ty → Prop
  | union {ts : List Ty} : (∀ t ∈ ts, t.Plain) → Plain (.union ts)
  | single {t : Ty} : t.isUnion = false → t.optionInner = none → Plain t

def Ty.Testable (t : Ty) : Prop := t.Plain ∨ ∃ u, t = .option u ∧ u.Plain

namespace Registry

variable {r : Registry} {v : Option Ty} {t : Ty} (hv : IsTag v)

include hv

theorem inhabits_union {ts : List Ty} :
    r.Inhabits v (.union ts) ↔ ∃ t ∈ ts, r.Inhabits v t := by
  constructor
  · intro h
    cases h with
    | same => cases hv _ rfl
    | member hmem h => exact ⟨_, hmem, h⟩
  · rintro ⟨t, hmem, h⟩
    exact .member hmem h

theorem inhabits_option :
    r.Inhabits v (.option t) ↔ v = none ∨ r.Inhabits v t := by
  constructor
  · intro h
    cases h with
    | same => cases hv _ rfl
    | absent => exact .inl rfl
    | present h => exact .inr h
  · rintro (rfl | h)
    · exact .absent
    · exact .present h

theorem inhabits_interface {d : DeclId} {args : List Ty} :
    r.Inhabits v (.interface d args) ↔ ∃ t, v = some t ∧ r.implements t (.interface d args) = true := by
  constructor
  · intro h
    cases h with
    | same => cases hv _ rfl
    | implements h => exact ⟨_, rfl, h⟩
  · rintro ⟨t, rfl, h⟩
    exact .implements h

theorem not_inhabits_never : ¬ r.Inhabits v .never := by
  intro h
  cases h
  cases hv _ rfl

theorem inhabits_ofMembers {ts : List Ty} :
    r.Inhabits v (.ofMembers ts) ↔ ∃ t ∈ ts, r.Inhabits v t := by
  match ts with
  | [] => simpa [Ty.ofMembers] using not_inhabits_never hv
  | [t] => simp [Ty.ofMembers]
  | t :: u :: us => exact inhabits_union hv

theorem inhabits_unionParts :
    (∃ u ∈ t.unionParts, r.Inhabits v u) ↔ r.Inhabits v t := by
  cases t with
  | union ts => exact (inhabits_union hv).symm
  | never => simpa [Ty.unionParts] using not_inhabits_never hv
  | _ => simp [Ty.unionParts]

theorem inhabits_mkUnion {ts : List Ty} :
    r.Inhabits v (.mkUnion ts) ↔ ∃ t ∈ ts, r.Inhabits v t := by
  unfold Ty.mkUnion
  rw [inhabits_ofMembers hv]
  simp only [Ty.mem_sorted, List.mem_flatMap]
  constructor
  · rintro ⟨u, ⟨t, ht, hu⟩, h⟩
    exact ⟨t, ht, (inhabits_unionParts hv).mp ⟨u, hu, h⟩⟩
  · rintro ⟨t, ht, h⟩
    obtain ⟨u, hu, h⟩ := (inhabits_unionParts hv).mpr h
    exact ⟨u, ⟨t, ht, hu⟩, h⟩

omit hv in
theorem not_inhabits_none (h : t.Plain) : ¬ r.Inhabits none t := by
  induction h with
  | union h ih =>
    intro hv
    cases hv with
    | member hmem hv => exact ih _ hmem hv
  | single hu ho =>
    intro hv
    cases hv with
    | member | absent | present => cases hu <;> cases ho

end Registry

namespace Ty

variable {t : Ty}

theorem Plain.member {ts : List Ty} (h : (Ty.union ts).Plain) : ∀ t ∈ ts, t.Plain := by
  cases h with
  | union h => exact h
  | single h => cases h

theorem Plain.optionInner (h : t.Plain) : t.optionInner = none := by
  cases h with
  | union => rfl
  | single _ h => exact h

theorem plain_union_iff {ts : List Ty} (h : ∀ t ∈ ts, t.isUnion = false) :
    (union ts).Plain ↔ ∀ t ∈ ts, t.optionInner = none :=
  ⟨fun hp t ht => (hp.member t ht).optionInner, fun ho => .union fun t ht => .single (h t ht) (ho t ht)⟩

theorem plain_named (d : DeclId) (args : List Ty) : (named d args).Plain := .single rfl rfl

theorem Plain.unionParts {u : Ty} (h : t.Plain) (k : u ∈ t.unionParts) : u.Plain := by
  cases t <;> simp only [Ty.unionParts, List.mem_singleton, List.not_mem_nil] at k
  case union ts => exact h.member u k
  all_goals exact k ▸ h

theorem plain_mkUnion {ts : List Ty} (h : ∀ t ∈ ts, t.Plain) : (mkUnion ts).Plain := by
  have hparts : ∀ u ∈ sorted (ts.flatMap Ty.unionParts), u.Plain := by
    intro u hu
    obtain ⟨t, ht, hut⟩ := List.mem_flatMap.mp (mem_sorted.mp hu)
    exact (h t ht).unionParts hut
  unfold mkUnion
  generalize sorted (ts.flatMap Ty.unionParts) = us at hparts
  match us with
  | [] => exact .single rfl rfl
  | [u] => exact hparts u (by simp)
  | u :: w :: ws => exact .union hparts

theorem Testable.optionInner {u : Ty} (h : t.Testable) (k : t.optionInner = some u) : u.Plain := by
  rcases h with h | ⟨w, rfl, h⟩
  · rw [h.optionInner] at k
    cases k
  · cases k
    exact h

theorem Testable.plain (h : t.Testable) (k : t.optionInner = none) : t.Plain := by
  rcases h with h | ⟨w, rfl, -⟩
  · exact h
  · cases k

end Ty

end TypeFlow
