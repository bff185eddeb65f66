import TypeFlow.Ty.Subst

namespace TypeFlow

inductive GenericKind where
  | type (bounds : List Ty) (default : Option Ty)
  | const (ty : Ty)
  deriving DecidableEq, Repr

structure GenericParam where
  name : String
  index : Nat
  kind : GenericKind
  deriving DecidableEq, Repr

namespace GenericParam

def isConst (p : GenericParam) : Bool :=
  match p.kind with
  | .const _ => true
  | .type .. => false

def default (p : GenericParam) : Option Ty :=
  match p.kind with
  | .type _ d => d
  | .const _ => none

def bounds (p : GenericParam) : List Ty :=
  match p.kind with
  | .type bs _ => bs
  | .const _ => []

def constType (p : GenericParam) : Option Ty :=
  match p.kind with
  | .const t => some t
  | .type .. => none

def ty (p : GenericParam) : Ty := .param p.name p.index

end GenericParam

abbrev Generics := List GenericParam

namespace Generics

def find (gs : Generics) (name : String) : Option GenericParam := List.find? (·.name == name) gs

def required : Generics → Nat
  | [] => 0
  | g :: gs =>
    match required gs with
    | 0 => if g.default.isNone then 1 else 0
    | n + 1 => n + 2

def acceptsCount (gs : Generics) (n : Nat) : Bool := required gs ≤ n && n ≤ gs.length

theorem required_le_length (gs : Generics) : required gs ≤ gs.length := by
  induction gs with
  | nil => simp [required]
  | cons g gs ih => simp only [required, List.length_cons]; split <;> (try split) <;> omega

end Generics

end TypeFlow
