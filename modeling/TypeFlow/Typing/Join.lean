import TypeFlow.Decl.Members

namespace TypeFlow

inductive JoinError where
  -- The branches share several interfaces, listed in the order of their ids.
  | ambiguous (candidates : List Ty)
  | incompatible (left right : Ty)
  deriving DecidableEq, Repr

namespace Registry

def joinUntyped (untyped other : Ty) : Option Ty :=
  if other.isUntyped then none
  else
    match untyped with
    | .untypedNone =>
      match other with
      | .option _ => some other
      | _ => some (.option other)
    | .untypedNil =>
      match other with
      | .pointer .. => some other
      | _ => none
    | _ => none

def commonInterfaces (r : Registry) (a b : Ty) : List Ty :=
  Ty.sorted ((r.interfacesOf a).filter (r.interfacesOf b).contains)

def joinInterfaces (r : Registry) (ids : Ty → Nat) (a b : Ty) : Except JoinError Ty :=
  match r.commonInterfaces a b with
  | [] => .error (.incompatible a b)
  | [i] => .ok i
  | is => .error (.ambiguous (Ty.sortById ids is))

def join (r : Registry) (ids : Ty → Nat) (a b : Ty) : Except JoinError Ty :=
  if a.isError || b.isError then .ok .error
  else if a == b then .ok a
  else if a.isNever then .ok b
  else if b.isNever then .ok a
  else
    match (joinUntyped a b).or (joinUntyped b a) with
    | some t => .ok t
    | none =>
      if a.optionInner == some b then .ok a
      else if b.optionInner == some a then .ok b
      else r.joinInterfaces ids a b

def joinAll (r : Registry) (ids : Ty → Nat) (ts : List Ty) : Except JoinError Ty :=
  ts.foldlM (r.join ids) .never

end Registry

end TypeFlow
