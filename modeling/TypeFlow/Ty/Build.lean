import TypeFlow.Ty.Order

namespace TypeFlow.Ty

def insertSorted (t : Ty) : List Ty → List Ty
  | [] => [t]
  | u :: us => if t = u then u :: us else if le t u then t :: u :: us else u :: insertSorted t us

def sorted (ts : List Ty) : List Ty := ts.foldr insertSorted []

def insertById (ids : Ty → Nat) (t : Ty) : List Ty → List Ty
  | [] => [t]
  | u :: us => if ids t ≤ ids u then t :: u :: us else u :: insertById ids t us

def sortById (ids : Ty → Nat) (ts : List Ty) : List Ty := ts.foldr (insertById ids) []

def mkTuple : List Ty → Ty
  | [] => unit
  | [t] => t
  | ts => tuple ts

def unionParts : Ty → List Ty
  | union ts => ts
  | never => []
  | t => [t]

def ofMembers : List Ty → Ty
  | [] => never
  | [t] => t
  | ts => union ts

def mkUnion (ts : List Ty) : Ty := ofMembers (sorted (ts.flatMap unionParts))

@[simp] theorem mem_insertSorted {s t : Ty} {us : List Ty} :
    s ∈ insertSorted t us ↔ s = t ∨ s ∈ us := by
  induction us with
  | nil => simp [insertSorted]
  | cons u us ih =>
    simp only [insertSorted]
    split
    · next h => subst h; simp
    · split <;> simp [ih, or_left_comm]

@[simp] theorem mem_sorted {s : Ty} {ts : List Ty} : s ∈ sorted ts ↔ s ∈ ts := by
  induction ts with
  | nil => simp [sorted]
  | cons t ts ih => simp only [sorted, List.foldr_cons, mem_insertSorted, List.mem_cons] at *; rw [ih]

def Lt (s t : Ty) : Prop := le s t = true ∧ s ≠ t

theorem Lt.trans {s t u : Ty} (h : Lt s t) (k : Lt t u) : Lt s u :=
  ⟨le_trans s t u h.1 k.1, fun e => k.2 (le_antisymm k.1 (e ▸ h.1))⟩

theorem pairwise_insertSorted (t : Ty) {us : List Ty} (h : us.Pairwise Lt) :
    (insertSorted t us).Pairwise Lt := by
  induction us with
  | nil => simp [insertSorted]
  | cons u us ih =>
    obtain ⟨hu, hus⟩ := List.pairwise_cons.1 h
    simp only [insertSorted]
    split
    · exact h
    · next hne =>
      split
      · next hle =>
        have htu : Lt t u := ⟨hle, hne⟩
        refine List.pairwise_cons.2 ⟨fun v hv => ?_, h⟩
        rcases List.mem_cons.1 hv with rfl | hv
        · exact htu
        · exact htu.trans (hu v hv)
      · next hle =>
        refine List.pairwise_cons.2 ⟨fun v hv => ?_, ih hus⟩
        rcases mem_insertSorted.1 hv with rfl | hv
        · have := le_total v u
          simp only [hle, Bool.false_or] at this
          exact ⟨this, fun e => hne e.symm⟩
        · exact hu v hv

theorem pairwise_sorted (ts : List Ty) : (sorted ts).Pairwise Lt := by
  induction ts with
  | nil => exact .nil
  | cons t ts ih => exact pairwise_insertSorted t ih

end TypeFlow.Ty
