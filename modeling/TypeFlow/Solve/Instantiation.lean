import TypeFlow.Typing.Assign

namespace TypeFlow

inductive SolveError where
  | unresolved (param : String)
  | conflicting (param : String) (first second : Ty)
  | constraintViolation (param : String) (ty constraint : Ty)
  | genericArgCount (min max found : Nat)
  | genericArgKind (param : String) (expectedConst : Bool)
  | constDomain (param : String) (value : ConstValue) (ty : Ty)
  | constNotConstant (param : String)
  deriving DecidableEq, Repr

inductive GenericBinding where
  | type (ty : Ty)
  | const (value : ConstValue)
  deriving DecidableEq, Repr

def GenericBinding.toTy : GenericBinding → Ty
  | .type t => t
  | .const v => .const v

structure Instantiation where
  params : List (String × GenericBinding) := []
  deriving DecidableEq, Repr

namespace Instantiation

def typeArgs (i : Instantiation) : List Ty := i.params.map (·.2.toTy)

def get (i : Instantiation) (param : String) : Option GenericBinding := i.params.lookup param

def apply (i : Instantiation) (t : Ty) : Ty := t.substParams i.typeArgs

end Instantiation

namespace Registry

def violated (r : Registry) (b : Bounds) (args : List Ty) (p : GenericParam) (ty : Ty) : Option Ty :=
  (p.bounds.map (Ty.substParams args)).find? fun c => !r.assignableIn b ty c

def checkConstraints (r : Registry) (b : Bounds) (args : List Ty) :
    Generics → List Ty → Except SolveError Unit
  | p :: ps, ty :: tys =>
    match r.violated b args p ty with
    | some c => .error (.constraintViolation p.name ty c)
    | none => checkConstraints r b args ps tys
  | _, _ => .ok ()

def finish (r : Registry) (b : Bounds) (gs : Generics) (params : List (String × GenericBinding)) :
    Except SolveError Instantiation := do
  let inst : Instantiation := ⟨params⟩
  r.checkConstraints b inst.typeArgs gs inst.typeArgs
  return inst

end Registry

end TypeFlow
