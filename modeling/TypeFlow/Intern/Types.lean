import TypeFlow.Intern.Pool
import TypeFlow.Ty.Flags

namespace TypeFlow

inductive TypeNode where
  | prim (p : Primitive)
  | unit
  | never
  | error
  | untypedNone
  | untypedNil
  | pointer (mutable : Bool) (inner : Handle)
  | reference (mutable : Bool) (inner : Handle)
  | fixedArray (len : UInt64) (elem : Handle)
  | dynArray (elem : Handle)
  | map (key value : Handle)
  | tuple (elems : List Handle)
  | function (params : List Handle) (variadic : Bool) (ret : Handle)
  | option (inner : Handle)
  | result (ok err : Handle)
  | channel (inner : Handle)
  | named (decl : UInt32) (args : List Handle)
  | interface (decl : UInt32) (args : List Handle)
  | union (members : List Handle)
  | param (name : Handle) (index : UInt32)
  | var (id : UInt32)
  | const (value : ConstValue)
  deriving DecidableEq, Repr

namespace TypeNode

def children : TypeNode → List Handle
  | pointer _ h | reference _ h | fixedArray _ h | dynArray h | option h | channel h => [h]
  | map k v => [k, v]
  | result a b => [a, b]
  | tuple hs | union hs | named _ hs | interface _ hs => hs
  | function ps _ r => ps ++ [r]
  | _ => []

def fixed : List TypeNode := Primitive.all.map prim ++ [unit, never, error, untypedNone, untypedNil]

def fixedHandle? : TypeNode → Option Handle
  | prim p => some ⟨p.index.toUInt32⟩
  | unit => some ⟨15⟩
  | never => some ⟨16⟩
  | error => some ⟨17⟩
  | untypedNone => some ⟨18⟩
  | untypedNil => some ⟨19⟩
  | _ => none

def ownFlags : TypeNode → TypeFlags
  | error => { hasError := true }
  | untypedNone | untypedNil => { hasUntyped := true }
  | param .. => { hasParam := true }
  | var _ => { hasVar := true }
  | const _ => { hasConst := true }
  | _ => .empty

end TypeNode

inductive InternError where
  | shardOverflow (shard : Nat)
  | unknownPart (part : Handle)
  deriving DecidableEq, Repr

structure TypePool where
  nodes : Pool TypeNode := ⟨TypeNode.fixed⟩
  flags : List (TypeNode × TypeFlags) := TypeNode.fixed.map fun n => (n, n.ownFlags)
  nextVar : UInt32 := 0
  deriving Repr

namespace TypePool

variable (hash : TypeNode → Nat)

def shardOf (n : TypeNode) : Nat := if n.fixedHandle?.isSome then 0 else hash n % Handle.shardCount

def lookup (p : TypePool) (h : Handle) : Option TypeNode := p.nodes.lookup (shardOf hash) h

def flagsOf (p : TypePool) (h : Handle) : Option TypeFlags :=
  (p.lookup hash h).bind fun n => p.flags.lookup n

def computeFlags (p : TypePool) (n : TypeNode) : Except InternError TypeFlags := do
  let fs ← n.children.mapM fun h => ((p.flagsOf hash h).map .ok).getD (.error (.unknownPart h))
  return n.ownFlags.union (.propagate fs)

def add (p : TypePool) (n : TypeNode) : Except InternError (Handle × TypePool) := do
  let f ← p.computeFlags hash n
  if (p.nodes.shardEntries (shardOf hash) (shardOf hash n)).length ≤ Handle.maxSlot.toNat then
    let interned := p.nodes.intern (shardOf hash) n
    return (interned.1, { p with nodes := interned.2, flags := (n, f) :: p.flags })
  else throw (.shardOverflow (shardOf hash n))

def tryIntern (p : TypePool) (n : TypeNode) : Except InternError (Handle × TypePool) :=
  match n.fixedHandle? with
  | some h => .ok (h, p)
  | none => if n ∈ p.nodes.entries then .ok (p.nodes.handleOf (shardOf hash) n, p) else p.add hash n

def freshVar (p : TypePool) : Except InternError (Handle × TypePool) :=
  { p with nextVar := p.nextVar + 1 }.tryIntern hash (.var p.nextVar)

end TypePool

end TypeFlow
