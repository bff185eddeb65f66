import TypeFlow.Ty.Equality

namespace TypeFlow

structure Local where
  ty : Ty
  mutable : Bool
  deriving DecidableEq, Repr

abbrev Frame := List (String × Local)

structure Scope where
  own : Frame := []
  outer : List Frame := []
  deriving DecidableEq, Repr

namespace Scope

def child (s : Scope) : Scope := ⟨[], s.own :: s.outer⟩

def parent? (s : Scope) : Option Scope :=
  match s.outer with
  | [] => none
  | f :: fs => some ⟨f, fs⟩

def bind (s : Scope) (name : String) (l : Local) : Scope :=
  { s with own := (name, l) :: s.own.filter fun e => e.1 != name }

def lookupIn (name : String) : List Frame → Option Local
  | [] => none
  | f :: fs => (f.lookup name).or (lookupIn name fs)

def lookup (s : Scope) (name : String) : Option Local := lookupIn name (s.own :: s.outer)

def ownNames (s : Scope) : List String := s.own.map (·.1)

@[simp] theorem parent?_child (s : Scope) : s.child.parent? = some s := rfl

@[simp] theorem lookup_child (s : Scope) (name : String) : s.child.lookup name = s.lookup name := rfl

theorem lookup_bind_self (s : Scope) (name : String) (l : Local) :
    (s.bind name l).lookup name = some l := by
  simp [lookup, bind, lookupIn]

end Scope

end TypeFlow
