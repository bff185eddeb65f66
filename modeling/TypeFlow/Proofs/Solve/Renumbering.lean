import Mathlib.Data.List.Basic
import TypeFlow.Proofs.Solve.Lessons
import TypeFlow.Proofs.Ty.Shift

namespace TypeFlow

namespace Solution

variable {k v : Nat} {gs : Generics} {weak : Bool} {s : Solution}

def shift (k : Nat) (s : Solution) : Solution :=
  ⟨s.strong.map fun b => (b.1 + k, b.2), s.weak.map fun b => (b.1 + k, b.2)⟩

theorem lookup_shift (k v : Nat) (bs : Ty.VarBindings) :
    (bs.map fun b => (b.1 + k, b.2)).lookup (v + k) = bs.lookup v := by
  induction bs with
  | nil => rfl
  | cons b bs ih =>
    have hbeq : (v + k == b.1 + k) = (v == b.1) := by simp
    rw [List.map_cons, List.lookup_cons, List.lookup_cons, hbeq, ih]

theorem get_shift (k v : Nat) (s : Solution) : (s.shift k).get (v + k) = s.get v := by
  unfold get shift
  rw [lookup_shift, lookup_shift]

theorem paramName_shift (k v : Nat) (gs : Generics) :
    Opening.paramName ⟨k, gs⟩ (v + k) = Opening.paramName ⟨0, gs⟩ v := by
  unfold Opening.paramName
  simp

def Renumbers (k : Nat) (f g : Solution → Except SolveError Solution) : Prop :=
  ∀ s, g (s.shift k) = (f s).map (shift k)

theorem renumbers_bind (k v : Nat) (gs : Generics) (weak : Bool) (t : Ty) :
    Renumbers k (Solution.bind ⟨0, gs⟩ weak v t) (Solution.bind ⟨k, gs⟩ weak (v + k) t) := by
  intro s
  have hstrong : (s.shift k).strong.lookup (v + k) = s.strong.lookup v := lookup_shift k v _
  have hweak : (s.shift k).weak.lookup (v + k) = s.weak.lookup v := lookup_shift k v _
  unfold Solution.bind
  rw [hstrong, hweak, paramName_shift]
  cases s.strong.lookup v with
  | some u =>
    dsimp only
    split <;> rfl
  | none =>
    dsimp only
    split
    · cases s.weak.lookup v with
      | some u =>
        dsimp only
        split <;> rfl
      | none => rfl
    · rfl

theorem renumbers_learn (k : Nat) (gs : Generics) (weak : Bool) (ls : List (Nat × Ty)) :
    Renumbers k (learn ⟨0, gs⟩ weak ls) (learn ⟨k, gs⟩ weak (ls.map fun l => (l.1 + k, l.2))) := by
  intro s
  induction ls generalizing s with
  | nil => rfl
  | cons l ls ih =>
    rw [learn, learn, List.map_cons, List.foldlM_cons, List.foldlM_cons,
      renumbers_bind k l.1 gs weak l.2 s]
    cases s.bind ⟨0, gs⟩ weak l.1 l.2 with
    | error e => rfl
    | ok t => exact ih t

end Solution

namespace Registry

open Solution (Renumbers)

variable {r : Registry} {k : Nat} {gs : Generics} {weak : Bool}

theorem align_shift (k : Nat) (p a : Ty) :
    r.align (p.shift k) a = (r.align p a).map fun q => (q.1.shift k, q.2) := by
  have hzip (ps as : List Ty) : (Ty.shiftAll k ps).zip as = (ps.zip as).map fun q => (q.1.shift k, q.2) := by
    rw [Ty.shiftAll_eq_map, List.zip_map_left]
    rfl
  have hlen (ps : List Ty) : (Ty.shiftAll k ps).length = ps.length := by
    rw [Ty.shiftAll_eq_map, List.length_map]
  cases p <;> simp only [Ty.shift, align]
  case pointer | reference | fixedArray | dynArray | channel | option | map | result => cases a <;> rfl
  case tuple | named | function | interface =>
    cases a <;> simp only [List.map_nil, hzip, hlen]
    all_goals split <;> simp
  all_goals rfl

theorem lessons_shift (k : Nat) (p a : Ty) :
    r.lessons (p.shift k) a = (r.lessons p a).map fun l => (l.1 + k, l.2) := by
  induction p using Ty.parts_induction generalizing a with
  | h p ih =>
    cases ha : a.isSilent with
    | true => rw [lessons_of_isSilent ha, lessons_of_isSilent ha, List.map_nil]
    | false =>
      by_cases hp : ∃ v, p = .var v
      · obtain ⟨v, rfl⟩ := hp
        rw [Ty.shift, lessons_var ha, lessons_var ha, List.map_singleton]
      · have hnot : ∀ v, p ≠ .var v := fun v heq => hp ⟨v, heq⟩
        have hshift : ∀ v, p.shift k ≠ .var v := by
          intro v heq
          cases p <;> cases heq
          exact hnot _ rfl
        rw [lessons_eq ha hnot, lessons_eq ha hshift, align_shift, List.flatMap_map, List.map_flatMap]
        exact List.flatMap_congr fun q hq => ih q.1 (mem_align hq).1 q.2

theorem vars_shift (k : Nat) (gs : Generics) :
    Opening.vars ⟨k, gs⟩ = (Opening.vars ⟨0, gs⟩).map (Ty.shift k) := by
  simp only [Opening.vars, List.range'_eq_map_range, List.map_map]
  refine List.map_congr_left fun i _ => ?_
  simp [Ty.shift, Nat.add_comm]

theorem openTy_shift {t : Ty} (h : t.VarFree) (k : Nat) (gs : Generics) :
    Opening.openTy ⟨k, gs⟩ t = (Opening.openTy ⟨0, gs⟩ t).shift k := by
  unfold Opening.openTy
  rw [Ty.shift_substParams, h.shift, vars_shift]

theorem renumbers_unifyEqs {eqs : List Equation} (h : ∀ q ∈ eqs, q.pattern.VarFree) :
    Renumbers k (r.unifyEqs ⟨0, gs⟩ weak eqs) (r.unifyEqs ⟨k, gs⟩ weak eqs) := by
  have hlessons : r.lessonsOf ⟨k, gs⟩ weak eqs =
      (r.lessonsOf ⟨0, gs⟩ weak eqs).map fun l => (l.1 + k, l.2) := by
    rw [lessonsOf, lessonsOf, List.map_flatMap]
    refine List.flatMap_congr fun q hq => ?_
    rw [openTy_shift (h q (List.mem_filter.mp hq).1), lessons_shift]
  intro s
  rw [unifyEqs_eq_learn, unifyEqs_eq_learn, hlessons]
  exact Solution.renumbers_learn k gs weak _ s

theorem readBindings_shift (k v : Nat) (gs : Generics) (s : Solution) (done : List Ty) :
    readBindings (s.shift k) (v + k) gs done = readBindings s v gs done := by
  induction gs generalizing v done with
  | nil => rfl
  | cons p gs ih =>
    have hnext (t : Ty) : readBindings (s.shift k) (v + k + 1) gs (done ++ [t]) =
        readBindings s (v + 1) gs (done ++ [t]) := by
      rw [Nat.add_right_comm]
      exact ih (v + 1) _
    simp only [readBindings, Solution.get_shift, hnext]

theorem solveInferred_base {eqs : List Equation} (h : ∀ q ∈ eqs, q.pattern.VarFree) (r : Registry)
    (b : Bounds) (gs : Generics) (base : Nat) :
    r.solveInferred b gs base eqs = r.solveInferred b gs 0 eqs := by
  have hstrong : Renumbers base (r.unifyEqs ⟨0, gs⟩ false eqs) (r.unifyEqs ⟨base, gs⟩ false eqs) :=
    renumbers_unifyEqs h
  have hweak : Renumbers base (r.unifyEqs ⟨0, gs⟩ true eqs) (r.unifyEqs ⟨base, gs⟩ true eqs) :=
    renumbers_unifyEqs h
  have hinitial : r.unifyEqs ⟨base, gs⟩ false eqs {} =
      (r.unifyEqs ⟨0, gs⟩ false eqs {}).map (Solution.shift base) := hstrong {}
  unfold solveInferred
  dsimp only
  rw [hinitial]
  cases r.unifyEqs ⟨0, gs⟩ false eqs {} with
  | error e => rfl
  | ok s =>
    simp only [Except.map, bind, Except.bind]
    rw [hweak s]
    cases r.unifyEqs ⟨0, gs⟩ true eqs s with
    | error e => rfl
    | ok t =>
      have hread := readBindings_shift base 0 gs t []
      rw [Nat.zero_add] at hread
      simp only [Except.map, hread]

end Registry

end TypeFlow
