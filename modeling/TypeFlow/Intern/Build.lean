import TypeFlow.Intern.Types

namespace TypeFlow

namespace Handle

def unit : Handle := ⟨15⟩

def never : Handle := ⟨16⟩

def insertSorted (a : Handle) : List Handle → List Handle
  | [] => [a]
  | b :: bs => if a = b then b :: bs else if a.raw < b.raw then a :: b :: bs else b :: insertSorted a bs

def sorted (as : List Handle) : List Handle := as.foldr insertSorted []

end Handle

namespace TypePool

variable (hash : TypeNode → Nat)

def unionParts (p : TypePool) (a : Handle) : Except InternError (List Handle) :=
  match p.lookup hash a with
  | some (.union as) => .ok as
  | some .never => .ok []
  | some _ => .ok [a]
  | none => .error (.unknownPart a)

def ofMembers (p : TypePool) : List Handle → Except InternError (Handle × TypePool)
  | [] => .ok (.never, p)
  | [a] => .ok (a, p)
  | as => p.tryIntern hash (.union as)

def construct (p : TypePool) : TypeNode → Except InternError (Handle × TypePool)
  | .tuple [] => .ok (.unit, p)
  | .tuple [a] => .ok (a, p)
  | .union as => do
    let parts ← as.mapM (p.unionParts hash)
    p.ofMembers hash (Handle.sorted parts.flatten)
  | n => p.tryIntern hash n

abbrev Interning := StateT TypePool (ExceptT InternError Option)

def build (n : TypeNode) : Interning Handle := fun p => some (p.construct hash n)

def known {α : Type} (x : TypePool → Handle → Option α) (a : Handle) : Interning α := fun p =>
  some (match x p a with
    | some v => .ok (v, p)
    | none => .error (.unknownPart a))

-- Rewrite a type from the bottom up. Types with flags to skip stay as they are; where `leaf` answers, the
-- answer stands in place of the node and is not visited again.
def mapTypesTo (skips : TypeFlags → Bool) (leaf : TypeNode → Option Handle) : Nat → Handle → Interning Handle
  | 0, _ => fun _ => none
  | depth + 1, a => do
    let f ← known (flagsOf hash) a
    if skips f then return a
    let n ← known (lookup hash) a
    match leaf n with
    | some b => return b
    | none =>
      let go := mapTypesTo skips leaf depth
      match n with
      | .pointer m b => build hash (.pointer m (← go b))
      | .reference m b => build hash (.reference m (← go b))
      | .fixedArray len b => build hash (.fixedArray len (← go b))
      | .dynArray b => build hash (.dynArray (← go b))
      | .map k v => do
        let k ← go k
        build hash (.map k (← go v))
      | .tuple bs => build hash (.tuple (← bs.mapM go))
      | .function ps v r => do
        let ps ← ps.mapM go
        build hash (.function ps v (← go r))
      | .option b => build hash (.option (← go b))
      | .result x y => do
        let x ← go x
        build hash (.result x (← go y))
      | .channel b => build hash (.channel (← go b))
      | .named d bs => build hash (.named d (← bs.mapM go))
      | .interface d bs => build hash (.interface d (← bs.mapM go))
      | .union bs => build hash (.union (← bs.mapM go))
      | _ => return a

-- A type is no deeper than there are types in the pool.
def mapTypes (skips : TypeFlags → Bool) (leaf : TypeNode → Option Handle) (a : Handle) : Interning Handle := fun p =>
  mapTypesTo hash skips leaf p.nodes.size a p

def paramLeaf (args : List Handle) : TypeNode → Option Handle
  | .param _ i => args[i.toNat]?
  | _ => none

def varLeaf (bindings : List (UInt32 × Handle)) : TypeNode → Option Handle
  | .var i => bindings.lookup i
  | _ => none

def substituteParams (args : List Handle) (a : Handle) : Interning Handle :=
  if args.isEmpty then return a else mapTypes hash (fun f => !f.meets { hasParam := true }) (paramLeaf args) a

def substituteVars (bindings : List (UInt32 × Handle)) (a : Handle) : Interning Handle :=
  mapTypes hash (fun f => !f.meets { hasVar := true }) (varLeaf bindings) a

def rewrite (leaf : TypeNode → Option Handle) (a : Handle) : Interning Handle :=
  mapTypes hash (fun _ => false) leaf a

end TypePool

end TypeFlow
