import TypeFlow.Span
import TypeFlow.Ty.Spelling
import TypeFlow.Decl.Generic

namespace TypeFlow

structure ParamSig where
  name : String
  ty : Ty
  mutable : Bool
  deriving DecidableEq, Repr

-- The signature of a function or method. The last parameter of a variadic one stands for any number
-- of arguments of its type.
structure Signature where
  name : String
  generics : Generics
  params : List ParamSig
  variadic : Bool
  ret : Ty
  span : Span
  deriving DecidableEq, Repr

namespace Signature

def minArgs (s : Signature) : Nat := if s.variadic then s.params.length - 1 else s.params.length

def acceptsCount (s : Signature) (count : Nat) : Bool :=
  if s.variadic then s.minArgs ≤ count else count == s.params.length

def paramAt (s : Signature) (index : Nat) : Option Ty :=
  if index < s.minArgs then s.params[index]?.map (·.ty)
  else if s.variadic then s.params.getLast?.map (·.ty)
  else none

def paramTypes (s : Signature) : List Ty := s.params.map (·.ty)

def fnType (s : Signature) : Ty := .function s.paramTypes s.variadic s.ret

end Signature

structure MethodSig where
  receiver : DeclId
  mutReceiver : Bool
  sig : Signature
  deriving DecidableEq, Repr

inductive DeclKind where
  | struct (fields : List (String × Ty)) (implements : List Ty)
  | enum (backing : Ty) (variants : List String) (implements : List Ty)
  | interface (isSealed : Bool) (implementors : List DeclId)
  deriving DecidableEq, Repr

structure DeclInfo where
  name : String
  generics : Generics
  kind : DeclKind
  span : Span
  deriving DecidableEq, Repr

namespace DeclInfo

def implements (d : DeclInfo) : List Ty :=
  match d.kind with
  | .struct _ is => is
  | .enum _ _ is => is
  | .interface .. => []

def isInterface (d : DeclInfo) : Bool :=
  match d.kind with
  | .interface .. => true
  | _ => false

def instantiate (d : DeclInfo) (id : DeclId) (args : List Ty) : Ty :=
  if d.isInterface then .interface id args else .named id args

end DeclInfo

inductive TypeDef where
  | decl (id : DeclId)
  | alias (target : Ty)
  deriving DecidableEq, Repr

structure ConstInfo where
  ty : Ty
  value : Option ConstValue
  span : Span
  deriving DecidableEq, Repr

structure Registry where
  decls : List DeclInfo := []
  types : List (String × TypeDef) := []
  functions : List Signature := []
  methods : List MethodSig := []
  consts : List (String × ConstInfo) := []
  deriving DecidableEq, Repr

namespace Registry

def typeDef (r : Registry) (name : String) : Option TypeDef := r.types.lookup name

def decl? (r : Registry) (id : DeclId) : Option DeclInfo := r.decls[id]?

def kind? (r : Registry) (id : DeclId) : Option DeclKind := (r.decl? id).map (·.kind)

def declName (r : Registry) (id : DeclId) : String := ((r.decl? id).map (·.name)).getD ""

def declNamed (r : Registry) (name : String) : Option DeclId :=
  match r.typeDef name with
  | some (.decl id) => some id
  | _ => none

def spell (r : Registry) (t : Ty) : String := t.spell r.declName Ty.sortTexts

def function (r : Registry) (name : String) : Option Signature :=
  r.functions.find? (·.name == name)

def method (r : Registry) (receiver : DeclId) (name : String) : Option MethodSig :=
  r.methods.find? fun m => m.receiver == receiver && m.sig.name == name

def anyMutReceiver (r : Registry) (name : String) : Bool :=
  r.methods.any fun m => m.sig.name == name && m.mutReceiver

def constant (r : Registry) (name : String) : Option ConstInfo := r.consts.lookup name

def addDecl (r : Registry) (info : DeclInfo) : Option (DeclId × Registry) :=
  if (r.typeDef info.name).isSome then none
  else
    let id := r.decls.length
    some (id, { r with decls := r.decls ++ [info], types := r.types ++ [(info.name, .decl id)] })

def addAlias (r : Registry) (name : String) (target : Ty) : Option Registry :=
  if (r.typeDef name).isSome then none
  else some { r with types := r.types ++ [(name, .alias target)] }

def addFunction (r : Registry) (sig : Signature) : Option Registry :=
  if (r.function sig.name).isSome then none
  else some { r with functions := r.functions ++ [sig] }

def addMethod (r : Registry) (m : MethodSig) : Option Registry :=
  if (r.method m.receiver m.sig.name).isSome then none
  else some { r with methods := r.methods ++ [m] }

def addConst (r : Registry) (name : String) (info : ConstInfo) : Option Registry :=
  if (r.constant name).isSome then none
  else some { r with consts := r.consts ++ [(name, info)] }

def modifyDecl (r : Registry) (id : DeclId) (f : DeclInfo → DeclInfo) : Registry :=
  { r with decls := r.decls.modify id f }

def implementors (r : Registry) (id : DeclId) : Option (List DeclId) :=
  match r.kind? id with
  | some (.interface _ ds) => some ds
  | _ => none

def addImplementor (r : Registry) (iface decl : DeclId) : Registry :=
  r.modifyDecl iface fun d =>
    match d.kind with
    | .interface s ds => { d with kind := .interface s (ds ++ [decl]) }
    | _ => d

end Registry

end TypeFlow
