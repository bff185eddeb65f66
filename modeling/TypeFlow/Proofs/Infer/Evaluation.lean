import TypeFlow.Proofs.Infer.Literals
import TypeFlow.Proofs.Lists

namespace TypeFlow

namespace ConstValue

def Bounded : ConstValue → Prop
  | .int n => -2 ^ 63 ≤ n ∧ n ≤ 2 ^ 63
  | _ => True

def fits (bits : Nat) : ConstValue → Bool
  | .int n => -2 ^ (bits - 1) ≤ n && n < 2 ^ (bits - 1)
  | _ => true

theorem Bounded.fits {v : ConstValue} {bits : Nat} (h : v.Bounded) (hbits : 64 < bits) : v.fits bits = true := by
  cases v with
  | int n =>
    obtain ⟨hlow, hhigh⟩ : -2 ^ 63 ≤ n ∧ n ≤ 2 ^ 63 := h
    have hpow : (2 : Int) ^ 64 ≤ 2 ^ (bits - 1) := Primitive.two_pow_le (by omega)
    simp only [ConstValue.fits, Bool.and_eq_true, decide_eq_true_eq]
    omega
  | bool | rune => rfl

-- What a machine makes of a result: a number that its words do not hold is an overflow.
def stored (bits : Nat) : Option ConstValue → Except ConstValue (Option ConstValue)
  | none => .ok none
  | some v => if v.fits bits then .ok (some v) else .error v

end ConstValue

namespace Expr

def values (r : Registry) (σ : Scope) : Expr → List ConstValue
  | neg s e => e.values r σ ++ ((neg s e).constValue r σ).toList
  | e => (e.constValue r σ).toList

def valueIn (bits : Nat) (r : Registry) (σ : Scope) : Expr → Except ConstValue (Option ConstValue)
  | neg _ e => do
    match ← e.valueIn bits r σ with
    | some (.int n) => ConstValue.stored bits (some (.int (-n)))
    | _ => return none
  | e => ConstValue.stored bits (e.constValue r σ)

theorem constValue_neg (r : Registry) (σ : Scope) (s : Site) (e : Expr) :
    (neg s e).constValue r σ = (e.constValue r σ).bind fun
      | .int n => some (.int (-n))
      | _ => none := by
  rw [constValue]
  cases e.constValue r σ with
  | none => rfl
  | some v => cases v <;> rfl

theorem stored_eq (bits : Nat) (o : Option ConstValue) :
    ConstValue.stored bits o = match o.toList.find? (!·.fits bits) with
      | some v => .error v
      | none => .ok o := by
  cases o with
  | none => rfl
  | some v => cases h : v.fits bits <;> simp [ConstValue.stored, h]

theorem valueIn_eq (bits : Nat) (r : Registry) (σ : Scope) (e : Expr) :
    e.valueIn bits r σ = match (e.values r σ).find? (!·.fits bits) with
      | some v => .error v
      | none => .ok (e.constValue r σ) := by
  induction e using Expr.parts_induction with
  | h e ih =>
    cases e
    case neg s e =>
      rw [valueIn, values, List.find?_append, ih e (List.mem_singleton_self e)]
      cases (e.values r σ).find? (!·.fits bits) with
      | some v => rfl
      | none =>
        rw [constValue_neg]
        cases e.constValue r σ with
        | none => rfl
        | some v =>
          cases v with
          | int n => exact stored_eq bits (some (.int (-n)))
          | bool | rune => rfl
    all_goals exact stored_eq bits _

example : (neg {} (int {} Int64.minValue)).valueIn 64 {} {} = .error (.int (2 ^ 63)) := rfl

end Expr

def Registry.Bounded (r : Registry) : Prop := ∀ e ∈ r.consts, ∀ v, e.2.value = some v → v.Bounded

theorem Registry.Bounded.constant {r : Registry} {x : String} {info : ConstInfo} {v : ConstValue} (h : r.Bounded)
    (hx : r.constant x = some info) (hv : info.value = some v) : v.Bounded := h _ (mem_of_lookup hx) v hv

namespace Expr

variable {r : Registry} {σ : Scope} {e : Expr} {v : ConstValue}

theorem bounded_constValue (h : r.Bounded) (hv : e.constValue r σ = some v) : v.Bounded := by
  induction e using Expr.parts_induction generalizing v with
  | h e ih =>
    cases e
    case int s n =>
      cases hv
      exact (Denotes.int s n).bounds
    case neg s e =>
      rw [constValue_neg] at hv
      obtain ⟨u, hu, hv⟩ := Option.bind_eq_some_iff.mp hv
      have hbounded := ih e (List.mem_singleton_self e) hu
      cases u with
      | int n =>
        cases hv
        obtain ⟨hlow, hhigh⟩ : -2 ^ 63 ≤ n ∧ n ≤ 2 ^ 63 := hbounded
        exact ⟨Int.neg_le_neg hhigh, Int.neg_le_of_neg_le hlow⟩
      | bool | rune => cases hv
    case ident s x =>
      rw [constValue] at hv
      split at hv
      · obtain ⟨info, hinfo, hvalue⟩ := Option.bind_eq_some_iff.mp hv
        exact h.constant hinfo hvalue
      · cases hv
    case bool | rune =>
      cases hv
      exact True.intro
    all_goals cases hv

theorem bounded_values (h : r.Bounded) : ∀ v ∈ e.values r σ, v.Bounded := by
  induction e using Expr.parts_induction with
  | h e ih =>
    cases e
    case neg s e =>
      refine List.forall_mem_append.mpr ⟨ih e (List.mem_singleton_self e), fun v hv => ?_⟩
      exact bounded_constValue h (Option.mem_toList.mp hv)
    all_goals exact fun v hv => bounded_constValue h (Option.mem_toList.mp hv)

theorem valueIn_of_bounded (h : r.Bounded) {bits : Nat} (hbits : 64 < bits) :
    e.valueIn bits r σ = .ok (e.constValue r σ) := by
  have hnone : (e.values r σ).find? (!·.fits bits) = none :=
    List.find?_eq_none.mpr fun v hv => by simp [(bounded_values h v hv).fits hbits]
  rw [valueIn_eq, hnone]

end Expr

theorem Infer.bounded_genericArg {c : BodyContext} (h : c.registry.Bounded) {span : Span}
    {p : Option GenericParam} {g : GenericChild} {s : BodyState} {v : ConstValue}
    (hv : (genericArg span p g).value c s = .const v) : v.Bounded := by
  have hconst {o : Option ConstValue} (ho : (o.map ExplicitArg.const).getD .notConstant = .const v) : o = some v := by
    cases o <;> cases ho
    rfl
  cases g with
  | type w =>
    have hregistry : registry.value c s = c.registry := rfl
    dsimp only [genericArg] at hv
    rw [value_bind, hregistry] at hv
    split at hv
    · next info hinfo =>
      obtain ⟨x, -, hx⟩ := Option.bind_eq_some_iff.mp hinfo
      exact h.constant hx (hconst hv)
    · cases hv
  | value ch => exact Expr.bounded_constValue h (hconst hv)

structure BodyContext.EvaluatesBounded (c : BodyContext) : Prop where
  values : ∀ (e : Expr) (σ : Scope), ∀ v ∈ e.values c.registry σ, v.Bounded
  exact : ∀ (e : Expr) (σ : Scope), e.valueIn 128 c.registry σ = .ok (e.constValue c.registry σ)
  argument : ∀ span p g s v, (Infer.genericArg span p g).value c s = .const v → v.Bounded

theorem BodyContext.evaluatesBounded {c : BodyContext} (h : c.registry.Bounded) : c.EvaluatesBounded where
  values _ _ := Expr.bounded_values h
  exact _ _ := Expr.valueIn_of_bounded h (by decide)
  argument _ _ _ _ _ := Infer.bounded_genericArg h

end TypeFlow
