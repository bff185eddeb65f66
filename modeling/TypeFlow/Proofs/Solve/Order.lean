import TypeFlow.Proofs.Solve.Gathering
import TypeFlow.Proofs.Solve.Renumbering

namespace TypeFlow

open Ty.VarBindings

namespace Registry

variable {r : Registry} {o : Opening} {eqs eqs' late : List Equation} {s s' : Solution} {weak : Bool}

theorem lessonsOf_perm (h : eqs.Perm eqs') :
    (r.lessonsOf o weak eqs).Perm (r.lessonsOf o weak eqs') := (h.filter _).flatMap_right _

theorem lessonsOf_append (eqs late : List Equation) :
    r.lessonsOf o weak (eqs ++ late) = r.lessonsOf o weak eqs ++ r.lessonsOf o weak late := by
  simp [lessonsOf]

theorem lessonsOf_eq_nil (h : ∀ e ∈ eqs, e.weak ≠ weak) : r.lessonsOf o weak eqs = [] := by
  have hnone : eqs.filter (·.weak == weak) = [] := List.filter_eq_nil_iff.mpr fun e he => by simpa using h e he
  rw [lessonsOf, hnone, List.flatMap_nil]

theorem mem_heard_congr (h : ∀ weak l, l ∈ r.lessonsOf o weak eqs ↔ l ∈ r.lessonsOf o weak eqs')
    (l : Nat × Ty) : l ∈ r.heard o eqs ↔ l ∈ r.heard o eqs' := by
  simp only [heard, List.mem_append, List.mem_filter, h, isNone_lookup_congr (h false)]

theorem readBindings_congr (h : ∀ v, s.get v = s'.get v) (v : Nat) (gs : Generics) (done : List Ty) :
    readBindings s v gs done = readBindings s' v gs done := by
  induction gs generalizing v done with
  | nil => rfl
  | cons p gs ih => simp only [readBindings, h, ih]

theorem solveInferred_congr {b : Bounds} {gs : Generics} {base : Nat}
    (h : ∀ weak l, l ∈ r.lessonsOf ⟨base, gs⟩ weak eqs ↔ l ∈ r.lessonsOf ⟨base, gs⟩ weak eqs') :
    r.solveInferred b gs base eqs = r.solveInferred b gs base eqs' ∨
      ∃ e e' : SolveError, e.IsConflict ∧ e'.IsConflict ∧ r.solveInferred b gs base eqs = .error e ∧
        r.solveInferred b gs base eqs' = .error e' := by
  have hheard := mem_heard_congr h
  rw [solveInferred_eq, solveInferred_eq]
  cases hs : r.gather ⟨base, gs⟩ eqs with
  | error e =>
    obtain ⟨hconflict, hnot⟩ := gather_error hs
    cases hs' : r.gather ⟨base, gs⟩ eqs' with
    | error e' => exact .inr ⟨e, e', hconflict, (gather_error hs').1, rfl, rfl⟩
    | ok s' => exact absurd ((coherent_congr hheard).mpr (gather_ok hs').1) hnot
  | ok s =>
    obtain ⟨hcoherent, hget⟩ := gather_ok hs
    obtain ⟨s', hs', hget'⟩ := exists_gather ((coherent_congr hheard).mp hcoherent)
    have hsame : ∀ v, s.get v = s'.get v := fun v =>
      Option.ext fun t => ((hget v t).trans (hheard (v, t))).trans (hget' v t).symm
    rw [hs']
    refine .inl ?_
    dsimp only [bind, Except.bind]
    rw [readBindings_congr hsame]

theorem gather_append_weak (hweak : ∀ e ∈ late, e.weak = true)
    (hbound : ∀ s, r.unifyEqs o false eqs {} = .ok s → ∀ e ∈ late, ∀ v,
      (o.openTy e.pattern).Somewhere (· = .var v) → (s.strong.lookup v).isSome = true) :
    r.gather o (eqs ++ late) = r.gather o eqs := by
  have hlate : r.lessonsOf o false late = [] := lessonsOf_eq_nil fun e he => by simp [hweak e he]
  have hstrong : r.unifyEqs o false (eqs ++ late) {} = r.unifyEqs o false eqs {} := by
    rw [unifyEqs_eq_learn, unifyEqs_eq_learn, lessonsOf_append, hlate, List.append_nil]
  unfold gather
  rw [hstrong]
  cases hs : r.unifyEqs o false eqs {} with
  | error e => rfl
  | ok s =>
    have hunheard : (r.lessonsOf o true late).filter (fun l => (s.strong.lookup l.1).isNone) = [] := by
      refine List.filter_eq_nil_iff.mpr fun l hl => ?_
      obtain ⟨e, he, -, hl⟩ := mem_lessonsOf.mp hl
      have hsome := hbound s hs e he l.1 (var_of_mem_lessons hl)
      rw [← Option.not_isSome, hsome]
      exact Bool.false_ne_true
    change r.unifyEqs o true (eqs ++ late) s = r.unifyEqs o true eqs s
    rw [unifyEqs_eq_learn, unifyEqs_eq_learn, Solution.learn_weak, Solution.learn_weak, lessonsOf_append,
      List.filter_append, hunheard, List.append_nil]

theorem solveInferred_orderless {b : Bounds} {gs : Generics} {base base' : Nat} (h : eqs.Perm eqs')
    (hbase : base = base' ∨ ∀ e ∈ eqs, e.pattern.VarFree) :
    (∀ i, r.solveInferred b gs base eqs = .ok i ↔ r.solveInferred b gs base' eqs' = .ok i) ∧
    ((∃ e : SolveError, e.IsConflict ∧ r.solveInferred b gs base eqs = .error e) ↔
      ∃ e : SolveError, e.IsConflict ∧ r.solveInferred b gs base' eqs' = .error e) ∧
    (∀ e : SolveError, ¬ e.IsConflict →
      (r.solveInferred b gs base eqs = .error e ↔ r.solveInferred b gs base' eqs' = .error e)) ∧
    ∀ late : List Equation, (∀ e ∈ late, e.weak = true) →
      (∀ s, r.unifyEqs ⟨base, gs⟩ false eqs {} = .ok s → ∀ e ∈ late, ∀ v,
        (Opening.openTy ⟨base, gs⟩ e.pattern).Somewhere (· = .var v) → (s.strong.lookup v).isSome = true) →
      r.solveInferred b gs base (eqs ++ late) = r.solveInferred b gs base eqs := by
  have hbases : r.solveInferred b gs base' eqs' = r.solveInferred b gs base eqs' := by
    rcases hbase with rfl | hfree
    · rfl
    · have hfree' : ∀ e ∈ eqs', e.pattern.VarFree := fun e he => hfree e (h.mem_iff.mpr he)
      rw [solveInferred_base hfree' r b gs base', solveInferred_base hfree' r b gs base]
  have hlessons : ∀ weak l, l ∈ r.lessonsOf ⟨base, gs⟩ weak eqs ↔ l ∈ r.lessonsOf ⟨base, gs⟩ weak eqs' :=
    fun _ _ => (lessonsOf_perm h).mem_iff
  have hcases := solveInferred_congr (b := b) hlessons
  rw [hbases]
  refine ⟨fun i => ?_, ?_, fun e he => ?_, fun late hweak hbound => ?_⟩
  · rcases hcases with heq | ⟨e, e', -, -, herror, herror'⟩
    · rw [heq]
    · simp [herror, herror']
  · rcases hcases with heq | ⟨e, e', he, he', herror, herror'⟩
    · rw [heq]
    · exact iff_of_true ⟨e, he, herror⟩ ⟨e', he', herror'⟩
  · rcases hcases with heq | ⟨f, f', hf, hf', herror, herror'⟩
    · rw [heq]
    · rw [herror, herror']
      refine iff_of_false ?_ ?_ <;> rintro ⟨⟩
      · exact he hf
      · exact he hf'
  · rw [solveInferred_eq, solveInferred_eq, gather_append_weak hweak hbound]

def typedArgument : Equation := { pattern := .param "T" 0, actual := .prim .i64 }

def literalArgument : Equation := { pattern := .param "T" 0, actual := .prim .i32, weak := true }

def oneParam : Generics := [⟨"T", 0, .type [] none⟩]

-- A literal yields to a typed argument before and after it.
theorem solveInferred_orderless_literal :
    solveInferred {} [] oneParam 7 [typedArgument, literalArgument] = .ok ⟨[("T", .type (.prim .i64))]⟩ ∧
    solveInferred {} [] oneParam 0 [literalArgument, typedArgument, literalArgument] =
      .ok ⟨[("T", .type (.prim .i64))]⟩ := by
  have hfree : ∀ e ∈ [literalArgument, typedArgument], e.pattern.VarFree := by
    intro e he
    have heq : e.pattern = .param "T" 0 := by
      rcases List.mem_pair.mp he with rfl | rfl <;> rfl
    rw [heq]
    exact .intro nofun nofun
  have hperm : [literalArgument, typedArgument].Perm [typedArgument, literalArgument] := .swap _ _ []
  have hbase : 0 = 7 ∨ ∀ e ∈ [literalArgument, typedArgument], e.pattern.VarFree := .inr hfree
  obtain ⟨hok, -, -, hlate⟩ := solveInferred_orderless (r := {}) (b := []) hperm hbase
  have hsolved : solveInferred {} [] oneParam 0 [literalArgument, typedArgument] =
      .ok ⟨[("T", .type (.prim .i64))]⟩ := by rfl
  refine ⟨(hok _).mp hsolved, (hlate [literalArgument] (by simp [literalArgument]) ?_).trans hsolved⟩
  intro s hs e he v hv
  cases hs
  cases List.mem_singleton.mp he
  cases hv with
  | here heq =>
    cases heq
    rfl
  | under hu _ => cases hu

end Registry

end TypeFlow
