import Mathlib.Algebra.Group.Int.Defs
import TypeFlow.Proofs.Infer.Run
import TypeFlow.Proofs.Syntax.Nodes
import TypeFlow.Proofs.Typing.Assign

namespace TypeFlow

inductive Ty.Wraps (t : Ty) : Ty → Prop where
  | bare : t.Wraps t
  | option {u : Ty} (h : t.Wraps u) : t.Wraps (.option u)
  | result {u : Ty} (e : Ty) (h : t.Wraps u) : t.Wraps (.result u e)

inductive Expr.Denotes : Expr → Int → Prop where
  | int (s : Site) (v : Int64) : Expr.Denotes (.int s v) v.toInt
  | neg (s t : Site) (v : Int64) : Expr.Denotes (.neg s (.int t v)) (-v.toInt)

theorem Expr.Denotes.bounds {e : Expr} {value : Int} (h : e.Denotes value) :
    -2 ^ 63 ≤ value ∧ value ≤ 2 ^ 63 := by
  cases h with
  | int s v => exact ⟨v.le_toInt, Int.le_of_lt v.toInt_lt⟩
  | neg s t v =>
    have hlow := v.le_toInt
    have hhigh := v.toInt_lt
    omega

namespace Primitive

variable {p q : Primitive} {value : Int}

theorem widensTo_self (h : p.isInteger = true) : p.widensTo p = true := by
  cases p <;> first | rfl | cases h

theorem holds_signed (h : p.category = some .signed) :
    p.holds value = true ↔ -2 ^ (p.bits - 1) ≤ value ∧ value ≤ 2 ^ (p.bits - 1) - 1 := by
  simp only [holds, intRange, h, Bool.and_eq_true, decide_eq_true_eq]
  exact Iff.rfl

theorem holds_unsigned (h : p.category = some .unsigned) :
    p.holds value = true ↔ 0 ≤ value ∧ value ≤ 2 ^ p.bits - 1 := by
  simp only [holds, intRange, h, Bool.and_eq_true, decide_eq_true_eq]
  exact Iff.rfl

theorem two_pow_le {m n : Nat} (h : m ≤ n) : (2 : Int) ^ m ≤ 2 ^ n := by
  exact_mod_cast Nat.pow_le_pow_right Nat.two_pos h

theorem holds_of_widensTo (h : q.widensTo p = true) (hq : q.holds value = true) :
    p.holds value = true := by
  simp only [widensTo, Bool.and_eq_true, beq_iff_eq, decide_eq_true_eq] at h
  obtain ⟨⟨-, hcategory⟩, hbits⟩ := h
  cases hc : q.category with
  | none => simp [holds, intRange, hc] at hq
  | some k =>
    have hp := hcategory ▸ hc
    cases k with
    | signed =>
      have hpow := two_pow_le (Nat.sub_le_sub_right hbits 1)
      rw [holds_signed hc] at hq
      rw [holds_signed hp]
      omega
    | unsigned =>
      have hpow := two_pow_le hbits
      rw [holds_unsigned hc] at hq
      rw [holds_unsigned hp]
      omega
    | float => simp [holds, intRange, hc] at hq

theorem i64_holds_iff (hlow : -2 ^ 63 ≤ value) (hhigh : value ≤ 2 ^ 63) :
    i64.holds value = true ↔ value ≠ 2 ^ 63 := by
  rw [holds_signed rfl, show i64.bits - 1 = 63 from rfl]
  omega

theorem i64_widensTo_iff (hp : p.isInteger = true) : i64.widensTo p = true ↔ p = .i64 ∨ p = .isize := by
  revert hp
  cases p <;> decide

def fallback (value : Int) : Primitive := if i32.holds value then i32 else i64

def taken (p : Primitive) (value : Int) : Primitive := if p.holds value then p else .fallback value

theorem fallback_widensTo_iff (hp : p.isInteger = true) (hvalue : p.holds value = false)
    (hlow : -2 ^ 63 ≤ value) (hhigh : value ≤ 2 ^ 63) :
    (fallback value).widensTo p = true ↔ value = 2 ^ 63 ∧ (p = .i64 ∨ p = .isize) := by
  have hmissed {q : Primitive} (h : q.widensTo p = true) : ¬ q.holds value = true := fun hq =>
    Bool.eq_false_iff.mp hvalue (holds_of_widensTo h hq)
  unfold fallback
  split
  · case isTrue hsmall =>
    have hvalue : value ≠ 2 ^ 63 := (i64_holds_iff hlow hhigh).mp (holds_of_widensTo rfl hsmall)
    exact ⟨fun h => absurd hsmall (hmissed h), fun h => absurd h.1 hvalue⟩
  · rw [i64_widensTo_iff hp]
    refine ⟨fun h => ⟨Decidable.byContradiction fun hne => ?_, h⟩, And.right⟩
    exact hmissed ((i64_widensTo_iff hp).mpr h) ((i64_holds_iff hlow hhigh).mpr hne)

theorem taken_widensTo_iff (hp : p.isInteger = true) (hlow : -2 ^ 63 ≤ value) (hhigh : value ≤ 2 ^ 63) :
    (p.taken value).widensTo p = true ↔ p.holds value = true ∨ value = 2 ^ 63 ∧ (p = .i64 ∨ p = .isize) := by
  unfold taken
  split
  · case isTrue hvalue =>
    exact ⟨fun _ => .inl hvalue, fun _ => widensTo_self hp⟩
  · case isFalse hvalue =>
    rw [fallback_widensTo_iff hp (Bool.eq_false_iff.mpr hvalue) hlow hhigh]
    exact ⟨.inr, fun h => h.resolve_left hvalue⟩

theorem taken_of_widensTo (hp : p.isInteger = true) (hlow : -2 ^ 63 ≤ value) (hhigh : value ≤ 2 ^ 63)
    (h : (p.taken value).widensTo p = true) : p.taken value = if p.holds value then p else .i64 := by
  unfold taken
  split
  · rfl
  · case isFalse hvalue =>
    obtain ⟨rfl, -⟩ := ((taken_widensTo_iff hp hlow hhigh).mp h).resolve_left hvalue
    decide

end Primitive

namespace Ty

variable {p q : Primitive} {target : Ty} {value : Int}

theorem Wraps.literalTarget_eq (h : (prim p).Wraps target) : target.literalTarget = prim p := by
  induction h with
  | bare => rfl
  | option h ih => exact ih
  | result e h ih => exact ih

theorem Wraps.ofInt_eq (h : (prim p).Wraps target) (hp : p.isInteger = true) :
    ofInt value (some target) = prim (p.taken value) := by
  have hfloat : p.isFloat = false := by cases p <;> first | rfl | cases hp
  have hprimitive : literalPrimitive (some target) = some p := by
    show target.literalTarget.primitive? = some p
    rw [h.literalTarget_eq]
    rfl
  unfold ofInt Primitive.taken Primitive.fallback
  rw [hprimitive, Option.filter, hfloat, Bool.or_false]
  by_cases hvalue : p.holds value = true
  · simp [hvalue]
  · simp only [hvalue]
    exact (apply_ite prim _ _ _).symm

theorem Wraps.assignableIn_prim (r : Registry) (b : Bounds) (hp : p.isInteger = true)
    (h : (prim p).Wraps target) : r.assignableIn b (prim q) target = q.widensTo p := by
  induction h with
  | bare =>
    by_cases heq : q = p
    · rw [heq, Registry.assignableIn_self, Primitive.widensTo_self hp]
    · simp [Registry.assignableIn, Registry.assignableFlat, Registry.assignableDirect, heq, isNever, isError]
  | option h ih =>
    rw [Registry.assignableIn, ih]
    simp [Registry.assignableFlat, Registry.assignableDirect, isNever, isError]
  | result e h ih =>
    rw [Registry.assignableIn, ih]
    simp [Registry.assignableFlat, Registry.assignableDirect, isNever, isError]

end Ty

namespace Infer

variable {c : BodyContext} {s : BodyState} {e : Expr} {value : Int} {p : Primitive} {target : Ty}

theorem run_intLiteral (he : e.Denotes value) (x : Option Ty) (used : Bool) (hs : s.aborted = false) :
    (e.infer x used).after c s =
        { s with types := e.ids.reverse.map (·, .ofInt value x) ++ s.types } ∧
      ((e.infer x used).value c s).ty = .ofInt value x := by
  cases he with
  | int site v =>
    obtain ⟨hafter, hvalue⟩ := run_visit (t := s) c site (plain <| return .ofInt v.toInt x) hs rfl
    rw [Expr.infer, hafter, hvalue, hs]
    exact ⟨rfl, rfl⟩
  | neg site operand v =>
    obtain ⟨hafter, hvalue⟩ :=
      run_visit (t := { s with types := (operand.id, .ofInt (-v.toInt) x) :: s.types }) c site
        (plain <| negatedInt operand v x) hs rfl
    rw [Expr.infer, hafter, hvalue, hs]
    exact ⟨rfl, rfl⟩

theorem lookup_map_const {t : Ty} {is : List Nat} {i : Nat} (h : i ∈ is) (es : List (Nat × Ty)) :
    (is.map (·, t) ++ es).lookup i = some t := by
  induction is with
  | nil => cases h
  | cons j js ih =>
    rw [List.map_cons, List.cons_append, List.lookup_cons]
    by_cases hij : i = j
    · rw [hij, beq_self_eq_true]
    · rw [beq_false_of_ne hij]
      exact ih ((List.mem_cons.mp h).resolve_left hij)

-- A literal is accepted where it fits, and then its nodes have the expected type. The one value that is
-- accepted without fitting is recorded as `i64`.
theorem check_intLiteral (c : BodyContext) (hs : s.aborted = false) (he : e.Denotes value)
    (hp : p.isInteger = true) (htarget : (Ty.prim p).Wraps target) :
    let t := (check e.asChild target).after c s
    (t.errors = s.errors ↔ p.holds value = true ∨ value = 2 ^ 63 ∧ (p = .i64 ∨ p = .isize)) ∧
      (t.errors = s.errors →
        ∀ i ∈ e.ids, t.typeOf i = some (.prim (if p.holds value then p else .i64))) := by
  obtain ⟨hlow, hhigh⟩ := he.bounds
  obtain ⟨hafter, hvalue⟩ := run_intLiteral (c := c) he (some target) true hs
  rw [htarget.ofInt_eq hp] at hafter hvalue
  have hrun : (check e.asChild target).after c s =
      (requireAssignable e.span target (.prim (p.taken value))).after c
        { s with types := e.ids.reverse.map (·, .prim (p.taken value)) ++ s.types } := by
    rw [← hafter, ← hvalue]
    rfl
  rw [hrun, after_requireAssignable, hs, Bool.false_or, htarget.assignableIn_prim _ _ hp,
    ← Primitive.taken_widensTo_iff hp hlow hhigh]
  split
  · case isTrue haccepted =>
    refine ⟨iff_of_true rfl haccepted, fun _ i hi => ?_⟩
    rw [← Primitive.taken_of_widensTo hp hlow hhigh haccepted]
    exact lookup_map_const (List.mem_reverse.mpr hi) _
  · case isFalse hrefused =>
    have herrors : ((report e.span (.mismatch target (.prim (p.taken value)))).after c
        { s with types := e.ids.reverse.map (·, .prim (p.taken value)) ++ s.types }).errors ≠ s.errors :=
      fun h => List.cons_ne_nil _ _ (List.append_right_eq_self.mp h)
    exact ⟨iff_of_false herrors hrefused, fun h => absurd h herrors⟩

-- The negation of the least `i64` where an optional `isize` is expected.
theorem check_negated_least :
    let e : Expr := .neg ⟨1, default⟩ (.int ⟨0, default⟩ Int64.minValue)
    let t := (check e.asChild (.option (.prim .isize))).after {} {}
    Primitive.isize.holds (-Int64.minValue.toInt) = false ∧ t.errors = [] ∧
      t.typeOf 0 = some (.prim .i64) ∧ t.typeOf 1 = some (.prim .i64) := by
  intro e t
  obtain ⟨hiff, htypes⟩ := check_intLiteral (s := {}) {} rfl (.neg ⟨1, default⟩ ⟨0, default⟩ Int64.minValue)
    (p := .isize) rfl (.option .bare)
  have herrors : t.errors = [] := hiff.mpr (.inr ⟨by decide, .inr rfl⟩)
  exact ⟨by decide, herrors, htypes herrors 0 (by decide), htypes herrors 1 (by decide)⟩

end Infer

end TypeFlow
