import TypeFlow.Decl.Registry

namespace TypeFlow.Registry

def listedInterfaces (r : Registry) (decl : DeclId) (args : List Ty) : List Ty :=
  (((r.decl? decl).map (·.implements)).getD []).map (Ty.substParams args)

def interfacesOf (r : Registry) : Ty → List Ty
  | .named d args => r.listedInterfaces d args
  | .interface d args => [.interface d args]
  | _ => []

def implements (r : Registry) (value iface : Ty) : Bool :=
  match value with
  | .named d args => (r.listedInterfaces d args).contains iface
  | _ => false

def fieldType (r : Registry) (t : Ty) (field : String) : Option Ty :=
  match t.deref with
  | .named d args =>
    match r.kind? d with
    | some (.struct fields _) => (fields.lookup field).map (Ty.substParams args)
    | _ => none
  | _ => none

structure FoundMethod where
  method : MethodSig
  receiverArgs : List Ty
  deriving DecidableEq, Repr

def methodOn (r : Registry) (decl : DeclId) (args : List Ty) (name : String) : Option FoundMethod :=
  (r.method decl name).map fun m => ⟨m, args⟩

def findMethod (r : Registry) (t : Ty) (name : String) : Option FoundMethod :=
  match t.deref with
  | .named d args =>
    (r.methodOn d args name).or <| (r.interfacesOf (.named d args)).findSome? fun i =>
      match i with
      | .interface d args => r.methodOn d args name
      | _ => none
  | .interface d args => r.methodOn d args name
  | _ => none

def plainDecl (r : Registry) (decl : DeclId) : Option Ty :=
  match r.decl? decl with
  | some info => if info.generics.isEmpty then some (.named decl []) else none
  | none => none

def exhaustiveMembers (r : Registry) : Ty → Option (List Ty)
  | .union ms => some ms
  | .interface d [] =>
    match r.kind? d with
    | some (.interface true ds) => ds.mapM r.plainDecl
    | _ => none
  | _ => none

end TypeFlow.Registry
