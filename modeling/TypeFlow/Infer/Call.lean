import TypeFlow.Infer.Child

namespace TypeFlow

def Expr.constValue (r : Registry) (scope : Scope) : Expr → Option ConstValue
  | .int _ v => some (.int v.toInt)
  | .bool _ v => some (.bool v)
  | .rune _ v => some (.rune v)
  | .neg _ e =>
    match e.constValue r scope with
    | some (.int n) => some (.int (-n))
    | _ => none
  | .ident _ x => if (scope.lookup x).isNone then (r.constant x).bind (·.value) else none
  | _ => none

namespace Infer

def arity (span : Span) (args : List Child) (declared : Nat) (variadic : Bool) : Infer Bool := do
  let expected := if variadic then declared - 1 else declared
  if (if variadic then expected ≤ args.length else args.length == expected) then return true
  inferAll args
  discard <| report span (.argCountMismatch expected args.length variadic)
  return false

def checkArgs (target : Nat → Option Ty) : Nat → List Child → Infer Unit
  | _, [] => return
  | i, c :: cs => do
    match target i with
    | some t => discard <| check c t
    | none => discard <| c.infer none
    checkArgs target (i + 1) cs

-- An explicit generic argument. A bare name counts as a value where a constant is wanted and the
-- name is a constant's.
def genericArg (span : Span) (param : Option GenericParam) : GenericChild → Infer ExplicitArg
  | .type w => do
    let constant := (param.bind (·.constType)).bind fun _ => w.bareName
    match constant.bind (← registry).constant with
    | some info => return (info.value.map ExplicitArg.const).getD .notConstant
    | none => return .type (← resolveType w span)
  | .value c => do
    discard <| c.infer (param.bind (·.constType))
    let value := c.expr.constValue (← registry) (← get).scope
    return (value.map ExplicitArg.const).getD .notConstant

def genericArgs (span : Span) : Generics → List GenericChild → Infer (List ExplicitArg)
  | _, [] => return []
  | ps, g :: gs => do
    let arg ← genericArg span ps.head? g
    return arg :: (← genericArgs span ps.tail gs)

inductive ArgState where
  | checked
  | inferred (ty : Ty)

def firstPass : List (Child × Ty) → Infer (List ArgState)
  | [] => return []
  | (c, pattern) :: args => do
    if pattern.flags.hasParam then
      let t ← c.infer none
      return .inferred t :: (← firstPass args)
    else
      discard <| check c pattern
      return .checked :: (← firstPass args)

def equations : List (Child × Ty) → List ArgState → List Equation
  | (c, pattern) :: args, .inferred t :: states =>
    ⟨pattern, t, c.expr.isUntypedLiteral⟩ :: equations args states
  | _ :: args, .checked :: states => equations args states
  | _, _ => []

-- The second pass: literals are typed anew against the instantiated parameter, other arguments are
-- compared with it.
def secondPass (inst : Instantiation) : List (Child × Ty) → List ArgState → Infer Unit
  | (c, pattern) :: args, .inferred found :: states => do
    let target := inst.apply pattern
    if c.expr.isUntypedLiteral then discard <| check c target
    else unless ← assignable found target do
      discard <| report c.span (.mismatch target found)
    secondPass inst args states
  | _ :: args, .checked :: states => secondPass inst args states
  | _, _ => return

def checkInstantiated (inst : Instantiation) : List (Child × Ty) → Infer Unit
  | [] => return
  | (c, pattern) :: args => do
    discard <| check c (inst.apply pattern)
    checkInstantiated inst args

def instantiate (span : Span) (gs : Generics) (explicit : List GenericChild)
    (args : List (Child × Ty)) : Infer (Option Instantiation) := do
  if explicit.isEmpty then
    let states ← firstPass args
    let base ← takeVars gs.length
    match (← registry).solveInferred (← read).bounds gs base (equations args states) with
    | .ok inst =>
      secondPass inst args states
      return some inst
    | .error e =>
      discard <| report span (.ofSolve e)
      return none
  else
    let given ← genericArgs span gs explicit
    match (← registry).solveExplicit (← read).bounds gs given with
    | .ok inst =>
      checkInstantiated inst args
      return some inst
    | .error e =>
      inferAll (args.map (·.1))
      discard <| report span (.ofSolve e)
      return none

def callLocal (span : Span) (callee : String) (ty : Ty) (args : List Child) : Infer Ty := do
  match ty with
  | .function params variadic ret =>
    if ← arity span args params.length variadic then
      checkArgs (fun i => (params[i]?).or params.getLast?) 0 args
    return ret
  | .error =>
    inferAll args
    return .error
  | _ =>
    inferAll args
    report span (.notCallable callee)

def callFunction (site : Site) (sig : Signature) (explicit : List GenericChild) (args : List Child) :
    Infer Ty := do
  if sig.generics.isEmpty then
    if !explicit.isEmpty then
      inferAll args
      report site.span (.genericArgCount 0 0 explicit.length)
    else
      if ← arity site.span args sig.params.length sig.variadic then checkArgs sig.paramAt 0 args
      return sig.ret
  else if ← arity site.span args sig.params.length sig.variadic then
    let patterns := (List.range args.length).map fun i => (sig.paramAt i).getD .error
    match ← instantiate site.span sig.generics explicit (args.zip patterns) with
    | some inst =>
      recordInst site.id inst
      return inst.apply sig.ret
    | none => return .error
  else return .error

def call (site : Site) (callee : String) (explicit : List GenericChild) (args : List Child) :
    Infer Ty := do
  match ← lookupLocal callee with
  | some l => callLocal site.span callee (← readLocal callee l) args
  | none =>
    match (← registry).function callee with
    | some sig => callFunction site sig explicit args
    | none =>
      inferAll args
      report site.span (.unknownIdent callee)

def methodCall (span : Span) (receiver : Child) (name : String) (args : List Child) : Infer Ty := do
  let t ← receiver.infer none
  if t.isError then
    inferAll args
    return .error
  match (← registry).findMethod t name with
  | none =>
    inferAll args
    report span (.unknownMember t name)
  | some found =>
    let sig := found.method.sig
    if ← arity span args sig.params.length sig.variadic then
      checkArgs (fun i => (sig.paramAt i).map (Ty.substParams found.receiverArgs)) 0 args
    if found.method.mutReceiver then
      match receiver.path? with
      | some p => write p span
      | none => pure ()
    return sig.ret.substParams found.receiverArgs

def mutArg (operand : Child) (expected : Option Ty) : Infer Ty := do
  let t ← operand.infer expected
  match operand.path? with
  | some p => write p operand.span
  | none => pure ()
  return t

def borrowHint : Option Ty → Option Ty
  | some (.reference _ t) => some t
  | _ => none

def borrow (span : Span) (mutable : Bool) (operand : Child) (expected : Option Ty) : Infer Ty := do
  let t ← operand.infer (borrowHint expected)
  if mutable then
    match operand.path? with
    | some p => write p span
    | none => pure ()
  return if t.isError then .error else .reference mutable t

def knownFields (self : Ty) (declared : List (String × Ty)) :
    List FieldChild → Infer (List (Child × Ty))
  | [] => return []
  | f :: fs => do
    match declared.lookup f.name with
    | some t => return (f.value, t) :: (← knownFields self declared fs)
    | none =>
      discard <| f.value.infer none
      discard <| report f.span (.unknownMember self f.name)
      knownFields self declared fs

def checkFields : List (Child × Ty) → Infer Unit
  | [] => return
  | (c, t) :: fs => do
    discard <| check c t
    checkFields fs

def constructStruct (site : Site) (decl : DeclId) (gs : Generics) (declared : List (String × Ty))
    (explicit : List GenericChild) (fields : List FieldChild) : Infer Ty := do
  let self := Ty.named decl (gs.map (·.ty))
  let known ← knownFields self declared fields
  if gs.isEmpty then
    if explicit.isEmpty then
      checkFields known
      return self
    else
      inferAll (known.map (·.1))
      report site.span (.genericArgCount 0 0 explicit.length)
  else
    match ← instantiate site.span gs explicit known with
    | some inst =>
      recordInst site.id inst
      return .named decl inst.typeArgs
    | none => return .error

def construct (site : Site) (name : String) (explicit : List GenericChild) (fields : List FieldChild) :
    Infer Ty := do
  let r ← registry
  match r.typeDef name with
  | none =>
    inferAll (fields.map (·.value))
    report site.span (.unknownType name)
  | some (.alias _) =>
    inferAll (fields.map (·.value))
    report site.span (.notAStruct name)
  | some (.decl d) =>
    match r.decl? d with
    | some ⟨_, gs, .struct declared _, _⟩ => constructStruct site d gs declared explicit fields
    | _ =>
      inferAll (fields.map (·.value))
      report site.span (.notAStruct name)

end Infer

end TypeFlow
