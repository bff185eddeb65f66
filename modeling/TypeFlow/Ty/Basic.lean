import TypeFlow.Ty.Primitive
import TypeFlow.Ty.Constant

namespace TypeFlow

abbrev DeclId := Nat

inductive Ty where
  | prim (p : Primitive)
  | unit
  | never
  | error
  | untypedNone
  | untypedNil
  | pointer (mutable : Bool) (inner : Ty)
  | reference (mutable : Bool) (inner : Ty)
  | fixedArray (len : Nat) (elem : Ty)
  | dynArray (elem : Ty)
  | map (key value : Ty)
  | tuple (elems : List Ty)
  | function (params : List Ty) (variadic : Bool) (ret : Ty)
  | option (inner : Ty)
  | result (ok err : Ty)
  | channel (inner : Ty)
  | named (decl : DeclId) (args : List Ty)
  | interface (decl : DeclId) (args : List Ty)
  -- At least two members, strictly sorted, none of them a union or `never`, in a canonical type.
  | union (members : List Ty)
  | param (name : String) (index : Nat)
  | var (id : Nat)
  | const (value : ConstValue)
  deriving Repr, Inhabited

namespace Ty

def children : Ty → List Ty
  | pointer _ t | reference _ t | fixedArray _ t | dynArray t | option t | channel t => [t]
  | map k v => [k, v]
  | result a b => [a, b]
  | tuple ts | union ts | named _ ts | interface _ ts => ts
  | function ps _ r => ps ++ [r]
  | _ => []

def isUntyped : Ty → Bool
  | untypedNone | untypedNil => true
  | _ => false

def isError : Ty → Bool
  | error => true
  | _ => false

def isNever : Ty → Bool
  | never => true
  | _ => false

def isInterface : Ty → Bool
  | interface .. => true
  | _ => false

def isUnion : Ty → Bool
  | union _ => true
  | _ => false

def optionInner : Ty → Option Ty
  | option t => some t
  | _ => none

def primitive? : Ty → Option Primitive
  | prim p => some p
  | _ => none

def declOf : Ty → Option DeclId
  | named d _ | interface d _ => some d
  | _ => none

def deref : Ty → Ty
  | reference _ t => t.deref
  | pointer _ t => t.deref
  | t => t

def fixedTypes : List Ty := Primitive.all.map prim ++ [unit, never, error, untypedNone, untypedNil]

def fixedId : Ty → Option Nat
  | prim p => some p.index
  | unit => some 15
  | never => some 16
  | error => some 17
  | untypedNone => some 18
  | untypedNil => some 19
  | _ => none

def fixedName : Ty → Option String
  | prim p => some p.name
  | unit => some "unit"
  | never => some "never"
  | error => some "error"
  | untypedNone => some "none"
  | untypedNil => some "nil"
  | _ => none

theorem getElem?_fixedTypes {t : Ty} {n : Nat} (h : t.fixedId = some n) : fixedTypes[n]? = some t := by
  cases t <;> simp only [fixedId, Option.some.injEq, reduceCtorEq] at h <;> subst h
  case prim p => cases p <;> rfl
  all_goals rfl

def constWord : ConstValue → List Nat
  | .int n => [0, n.toNat, (-n).toNat]
  | .bool b => [1, b.toNat]
  | .rune c => [2, c.toNat]

def head : Ty → List Nat
  | prim p => [0, p.index]
  | unit => [1]
  | never => [2]
  | error => [3]
  | untypedNone => [4]
  | untypedNil => [5]
  | param s i => 6 :: i :: s.toList.map Char.toNat
  | var i => [7, i]
  | const c => 8 :: constWord c
  | named d _ => [9, d]
  | interface d _ => [10, d]
  | pointer m _ => [11, m.toNat]
  | reference m _ => [12, m.toNat]
  | fixedArray n _ => [13, n]
  | dynArray _ => [14]
  | map .. => [15]
  | tuple _ => [16]
  | function _ v _ => [17, v.toNat]
  | option _ => [18]
  | result .. => [19]
  | channel _ => [20]
  | union _ => [21]

def parts : Ty → List Ty
  | pointer _ t | reference _ t | fixedArray _ t | dynArray t | option t | channel t => [t]
  | map s t | result s t => [s, t]
  | tuple ts | union ts | named _ ts | interface _ ts => ts
  | function ps _ r => r :: ps
  | _ => []

theorem sizeOf_lt_of_mem_parts {s t : Ty} (h : s ∈ t.parts) : sizeOf s < sizeOf t := by
  cases t <;> simp [parts] at h ⊢
  case map | result => rcases h with rfl | rfl <;> omega
  case function =>
    rcases h with rfl | h
    · omega
    · have := List.sizeOf_lt_of_mem h; omega
  case tuple | named | interface | union => have := List.sizeOf_lt_of_mem h; omega
  all_goals subst h; omega

theorem parts_induction {P : Ty → Prop} (h : ∀ t, (∀ s ∈ t.parts, P s) → P t) (t : Ty) : P t :=
  h t fun s _ => parts_induction h s
termination_by sizeOf t
decreasing_by exact sizeOf_lt_of_mem_parts ‹_›

theorem constWord_injective {c d : ConstValue} (h : constWord c = constWord d) : c = d := by
  cases c <;> cases d <;> simp [constWord] at h ⊢
  case int.int n m => omega
  case bool.bool a b => revert h; cases a <;> cases b <;> simp
  case rune.rune a b => exact Char.ext (UInt32.toNat_inj.1 h)

private theorem toNat_inj {a b : Bool} (h : a.toNat = b.toNat) : a = b := by
  revert h; cases a <;> cases b <;> decide

private theorem map_toNat_inj {s t : List Char} (h : s.map Char.toNat = t.map Char.toNat) : s = t :=
  (List.map_inj_right (fun _ _ h => Char.ext (UInt32.toNat_inj.1 h))).1 h

theorem eq_of_head_of_parts {s t : Ty} (h : s.head = t.head) (k : s.parts = t.parts) : s = t := by
  cases s <;> cases t <;> simp [head, parts] at h k ⊢
  case prim.prim => exact Primitive.index_injective h
  case pointer.pointer | reference.reference => exact ⟨toNat_inj h, k⟩
  case function.function => exact ⟨k.2, toNat_inj h, k.1⟩
  case param.param => exact ⟨String.toList_inj.1 (map_toNat_inj h.2), h.1⟩
  case const.const => exact constWord_injective h
  all_goals simp_all

end Ty

end TypeFlow
