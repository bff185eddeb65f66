import TypeFlow.Decl.Members

namespace TypeFlow

abbrev Bounds := List (Ty × List Ty)

namespace Bounds

def get (b : Bounds) (param : Ty) : List Ty := (b.lookup param).getD []

def insert (b : Bounds) (param : Ty) (ifaces : List Ty) : Bounds := (param, ifaces) :: b

def ofGenerics (gs : Generics) : Bounds :=
  (gs.filter fun g => !g.isConst).foldl (fun b g => b.insert g.ty g.bounds) []

end Bounds

namespace Registry

def assignableDirect (r : Registry) (b : Bounds) (value target : Ty) : Bool :=
  match target with
  | .interface .. =>
    match value with
    | .param .. => (b.get value).contains target
    | _ => r.implements value target
  | .union ts =>
    match value with
    | .union ms => ms.all ts.contains
    | _ => ts.contains value
  | .reference tm ti =>
    match value with
    | .reference vm vi => (vm || !tm) && (vi == ti || ti == .unit)
    | _ => false
  | .pointer tm ti =>
    match value with
    | .pointer vm vi => (vm || !tm) && (vi == ti || ti == .unit)
    | .untypedNil => true
    | _ => false
  | .option _ =>
    match value with
    | .untypedNone => true
    | _ => false
  | .prim q =>
    match value with
    | .prim p => p.widensTo q
    | .named d _ =>
      match r.kind? d with
      | some (.enum backing _ _) => backing == target
      | _ => false
    | _ => false
  | _ => false

def assignableFlat (r : Registry) (b : Bounds) (value target : Ty) : Bool :=
  value == target || value.isNever || value.isError || target.isError
    || r.assignableDirect b value target

def assignableIn (r : Registry) (b : Bounds) (value : Ty) : Ty → Bool
  | .option t => r.assignableFlat b value (.option t) || r.assignableIn b value t
  | .result t e => r.assignableFlat b value (.result t e) || r.assignableIn b value t
  | t => r.assignableFlat b value t

def assignable (r : Registry) (value target : Ty) : Bool := r.assignableIn [] value target

end Registry

end TypeFlow
