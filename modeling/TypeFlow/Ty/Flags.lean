import TypeFlow.Ty.Equality

namespace TypeFlow

structure TypeFlags where
  hasVar : Bool := false
  hasParam : Bool := false
  hasError : Bool := false
  hasUntyped : Bool := false
  hasConst : Bool := false
  deriving DecidableEq, Repr, Inhabited

namespace TypeFlags

def empty : TypeFlags := {}

def union (f g : TypeFlags) : TypeFlags :=
  ⟨f.hasVar || g.hasVar, f.hasParam || g.hasParam, f.hasError || g.hasError,
    f.hasUntyped || g.hasUntyped, f.hasConst || g.hasConst⟩

def propagate (fs : List TypeFlags) : TypeFlags := fs.foldl union empty

def meets (f g : TypeFlags) : Bool :=
  (f.hasVar && g.hasVar) || (f.hasParam && g.hasParam) || (f.hasError && g.hasError)
    || (f.hasUntyped && g.hasUntyped) || (f.hasConst && g.hasConst)

def isClosed (f : TypeFlags) : Bool := !(f.hasVar || f.hasParam)

def ofBits (n : Nat) : TypeFlags :=
  ⟨n.testBit 0, n.testBit 1, n.testBit 2, n.testBit 3, n.testBit 4⟩

def bits (f : TypeFlags) : Nat :=
  f.hasVar.toNat + 2 * f.hasParam.toNat + 4 * f.hasError.toNat + 8 * f.hasUntyped.toNat
    + 16 * f.hasConst.toNat

def names (f : TypeFlags) : List String :=
  [(f.hasVar, "var"), (f.hasParam, "param"), (f.hasError, "error"), (f.hasUntyped, "untyped"),
    (f.hasConst, "const")].filterMap fun (set, name) => if set then some name else none

end TypeFlags

namespace Ty

mutual

def treeFlags : Ty → TypeFlags
  | error => { hasError := true }
  | untypedNone | untypedNil => { hasUntyped := true }
  | param .. => { hasParam := true }
  | var _ => { hasVar := true }
  | const _ => { hasConst := true }
  | prim _ | unit | never => .empty
  | pointer _ t | reference _ t | fixedArray _ t | dynArray t | option t | channel t => treeFlags t
  | map s t | result s t => (treeFlags s).union (treeFlags t)
  | tuple ts | union ts | named _ ts | interface _ ts => treeFlagsAll ts
  | function ps _ r => (treeFlagsAll ps).union (treeFlags r)

def treeFlagsAll : List Ty → TypeFlags
  | [] => .empty
  | t :: ts => (treeFlags t).union (treeFlagsAll ts)

end

mutual

def findFlags (t : Ty) : Recalling (Answers treeFlags) (Answer treeFlags t) :=
  match t with
  | pointer _ a | reference _ a | fixedArray _ a | dynArray a | option a | channel a =>
    Answers.note _ do
      let ⟨f, h⟩ ← findFlags a
      return ⟨f, h⟩
  | map a b | result a b => Answers.note _ do
    let ⟨f, h⟩ ← findFlags a
    let ⟨g, k⟩ ← findFlags b
    return ⟨f.union g, by rw [h, k, treeFlags]⟩
  | tuple ts | union ts | named _ ts | interface _ ts => Answers.note _ do
    let ⟨f, h⟩ ← findFlagsAll ts
    return ⟨f, h⟩
  | function ps v r => Answers.note _ do
    let ⟨f, h⟩ ← findFlagsAll ps
    let ⟨g, k⟩ ← findFlags r
    return ⟨f.union g, by rw [h, k, treeFlags]⟩
  | prim _ | unit | never | error | untypedNone | untypedNil | param .. | var _ | const _ =>
    return ⟨_, rfl⟩

def findFlagsAll : (ts : List Ty) → Recalling (Answers treeFlags) (Answer treeFlagsAll ts)
  | [] => return ⟨_, rfl⟩
  | t :: ts => do
    let ⟨f, h⟩ ← findFlags t
    let ⟨g, k⟩ ← findFlagsAll ts
    return ⟨f.union g, by rw [h, k, treeFlagsAll]⟩

end

def sharedFlags (t : Ty) : Answer treeFlags t :=
  withAddress t fun address => if address = 0 then ⟨_, rfl⟩ else (findFlags t).run {}

def flags (t : Ty) : TypeFlags := (sharedFlags t).1

theorem flags_eq_treeFlags (t : Ty) : flags t = treeFlags t := (sharedFlags t).2

end Ty

end TypeFlow
