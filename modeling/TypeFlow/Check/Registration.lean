import TypeFlow.Infer.Expr
import TypeFlow.Syntax.Module

namespace TypeFlow

structure Registration where
  registry : Registry := {}
  errors : List CheckError := []
  consts : List BodyState := []
  nextVar : Nat := 0

abbrev Register := StateM Registration

-- Generic parameters with names and kinds only, so that any of them can mention any other.
def placeholders : Nat → List GenericItem → Generics
  | _, [] => []
  | i, g :: gs =>
    let kind :=
      match g.kind with
      | .type .. => GenericKind.type [] none
      | .const _ => .const .error
    ⟨g.name, i, kind⟩ :: placeholders (i + 1) gs

namespace Register

def report (span : Span) (cause : Cause) : Register Unit :=
  modify fun s => { s with errors := s.errors ++ [⟨span, cause⟩] }

def modifyRegistry (f : Registry → Registry) : Register Unit :=
  modify fun s => { s with registry := f s.registry }

def keep (added : Option Registry) (span : Span) (name : String) : Register Unit :=
  match added with
  | some r => modifyRegistry fun _ => r
  | none => report span (.duplicateDefinition name)

def resolve (scope : Generics) (span : Span) (w : Written) : Register Ty := do
  match (← get).registry.resolve scope w with
  | .ok t => return t
  | .error e =>
    report span (.ofResolve e)
    return .error

def resolveEach (scope : Generics) (span : Span) : List Written → Register (List Ty)
  | [] => return []
  | w :: ws => do
    let t ← resolve scope span w
    return t :: (← resolveEach scope span ws)

def declare (name : String) (span : Span) (generics : List GenericItem) (kind : DeclKind) :
    Register (Option DeclId) := do
  match (← get).registry.addDecl ⟨name, placeholders 0 generics, kind, span⟩ with
  | some (id, r) =>
    modifyRegistry fun _ => r
    return some id
  | none =>
    report span (.duplicateDefinition name)
    return none

def resolveBounds (scope : Generics) (span : Span) : List Written → Register (List Ty)
  | [] => return []
  | w :: ws => do
    let t ← resolve scope span w
    if t.isError then resolveBounds scope span ws
    else if t.isInterface then return t :: (← resolveBounds scope span ws)
    else
      report span (.notAnInterface t)
      resolveBounds scope span ws

def resolveGenericKind (scope : Generics) (span : Span) : GenericItemKind → Register GenericKind
  | .type bounds none => return .type (← resolveBounds scope span bounds) none
  | .type bounds (some d) => do
    let bounds ← resolveBounds scope span bounds
    return .type bounds (some (← resolve scope span d))
  | .const t => return .const (← resolve scope span t)

def resolveGenericsFrom (scope : Generics) : Nat → List GenericItem → Register Generics
  | _, [] => return []
  | i, g :: gs => do
    let kind ← resolveGenericKind scope g.span g.kind
    return ⟨g.name, i, kind⟩ :: (← resolveGenericsFrom scope (i + 1) gs)

def resolveGenerics (gs : List GenericItem) : Register Generics :=
  resolveGenericsFrom (placeholders 0 gs) 0 gs

def setGenerics : List (Option DeclId) → List (List GenericItem) → Register Unit
  | some id :: ids, gs :: rest => do
    let generics ← resolveGenerics gs
    modifyRegistry fun r => r.modifyDecl id fun d => { d with generics }
    setGenerics ids rest
  | none :: ids, _ :: rest => setGenerics ids rest
  | _, _ => return

def freshAliases : List AliasItem → List AliasItem → Register (List AliasItem)
  | pending, [] => return pending
  | pending, a :: as => do
    if ((← get).registry.typeDef a.name).isSome || pending.any (·.name == a.name) then
      report a.span (.duplicateDefinition a.name)
      freshAliases pending as
    else freshAliases (pending ++ [a]) as

def aliasRound : List AliasItem → Register (List (AliasItem × ResolveError))
  | [] => return []
  | a :: as => do
    let r := (← get).registry
    match r.resolve [] a.target with
    | .ok t =>
      modifyRegistry fun _ => (r.addAlias a.name t).getD r
      aliasRound as
    | .error e => return (a, e) :: (← aliasRound as)

-- Report an alias. It stands for the error type, so that its uses are not reported as well.
def failAlias (a : AliasItem) (e : ResolveError) : Register Unit := do
  report a.span (.ofResolve e)
  modifyRegistry fun r => (r.addAlias a.name .error).getD r

def failAliases : List (AliasItem × ResolveError) → Register Unit
  | [] => return
  | (a, e) :: as => do
    failAlias a e
    failAliases as

def retryable : List (AliasItem × ResolveError) → Register (List AliasItem)
  | [] => return []
  | (a, .unknownType _) :: as => return a :: (← retryable as)
  | (a, e) :: as => do
    failAlias a e
    retryable as

-- Rounds over the pending aliases until one makes no progress. Every other round settles an alias,
-- so there are no more rounds than aliases and one.
def aliasRounds : Nat → List AliasItem → Register Unit
  | 0, _ => return
  | fuel + 1, pending => do
    let failed ← aliasRound pending
    if failed.length == pending.length then failAliases failed
    else
      let pending ← retryable failed
      if pending.isEmpty then return
      aliasRounds fuel pending

def aliases (as : List AliasItem) : Register Unit := do
  let pending ← freshAliases [] as
  aliasRounds (pending.length + 1) pending

def constType (c : ConstItem) (declared : Option Ty) : Infer Ty := do
  match declared.filter fun t => !t.isError with
  | some t =>
    discard <| Infer.check c.value.asChild t
    return t
  | none =>
    let found ← c.value.asChild.infer none
    if found.isUntyped then Infer.report c.span .untypedLiteral
    else return declared.getD found

def const (c : ConstItem) : Register Unit := do
  let declared ← match c.ty with
    | some w => some <$> resolve [] c.span w
    | none => pure none
  let s ← get
  let r := s.registry
  let (ty, body) := ((constType c declared).run { registry := r } |>.run { nextVar := s.nextVar }).value
  let value := c.value.constValue r body.scope
  set { s with consts := s.consts ++ [body], nextVar := body.nextVar }
  keep (r.addConst c.name ⟨ty, value, c.span⟩) c.span c.name

def consts : List ConstItem → Register Unit
  | [] => return
  | c :: cs => do
    const c
    consts cs

def fields (scope : Generics) : List (String × Ty) → List FieldItem → Register (List (String × Ty))
  | done, [] => return done
  | done, f :: fs => do
    if (done.lookup f.name).isSome then
      report f.span (.duplicateDefinition f.name)
      fields scope done fs
    else
      let t ← resolve scope f.span f.ty
      fields scope (done ++ [(f.name, t)]) fs

def implementsList (decl : DeclId) (scope : Generics) (span : Span) :
    List Written → Register (List Ty)
  | [] => return []
  | w :: ws => do
    let t ← resolve scope span w
    match t with
    | .error => implementsList decl scope span ws
    | .interface i _ =>
      modifyRegistry fun r =>
        if ((r.implementors i).getD []).contains decl then r else r.addImplementor i decl
      return t :: (← implementsList decl scope span ws)
    | _ =>
      report span (.notAnInterface t)
      implementsList decl scope span ws

def struct (id : DeclId) (s : StructItem) : Register Unit := do
  let scope := (((← get).registry.decl? id).map (·.generics)).getD []
  let fs ← fields scope [] s.fields
  let is ← implementsList id scope s.span s.implements
  modifyRegistry fun r => r.modifyDecl id fun d => { d with kind := .struct fs is }

def structs : List (Option DeclId) → List StructItem → Register Unit
  | some id :: ids, s :: ss => do
    struct id s
    structs ids ss
  | none :: ids, _ :: ss => structs ids ss
  | _, _ => return

def backing (span : Span) : Option Written → Register Ty
  | none => return .prim .i32
  | some w => do
    let t ← resolve [] span w
    unless t.isError || t.primitive?.any (·.isInteger) do
      report span (.mismatch (.prim .i32) t)
    return t

def variants (span : Span) : List String → List String → Register (List String)
  | done, [] => return done
  | done, v :: vs => do
    if done.contains v then
      report span (.duplicateDefinition v)
      variants span done vs
    else variants span (done ++ [v]) vs

def enum (id : DeclId) (e : EnumItem) : Register Unit := do
  let b ← backing e.span e.backing
  let vs ← variants e.span [] e.variants
  let is ← implementsList id [] e.span e.implements
  modifyRegistry fun r => r.modifyDecl id fun d => { d with kind := .enum b vs is }

def enums : List (Option DeclId) → List EnumItem → Register Unit
  | some id :: ids, e :: es => do
    enum id e
    enums ids es
  | none :: ids, _ :: es => enums ids es
  | _, _ => return

def params (scope : Generics) : List ParamItem → Register (List ParamSig)
  | [] => return []
  | p :: ps => do
    let t ← resolve scope p.span p.ty
    return ⟨p.name, t, p.mutable⟩ :: (← params scope ps)

def returnType (scope : Generics) (span : Span) : Option Written → Register Ty
  | none => return .unit
  | some w => resolve scope span w

def function (f : FunctionItem) : Register Unit := do
  let generics ← resolveGenerics f.generics
  let params ← params generics f.params
  let ret ← returnType generics f.span f.ret
  let r := (← get).registry
  keep (r.addFunction ⟨f.name, generics, params, f.variadic, ret, f.span⟩) f.span f.name

def functions : List FunctionItem → Register Unit
  | [] => return
  | f :: fs => do
    function f
    functions fs

def method (m : MethodItem) : Register Unit := do
  match (← get).registry.declNamed m.receiverType with
  | none => report m.span (.unknownType m.receiverType)
  | some receiver =>
    let scope := (((← get).registry.decl? receiver).map (·.generics)).getD []
    let params ← params scope m.params
    let ret ← returnType scope m.span m.ret
    let r := (← get).registry
    keep (r.addMethod ⟨receiver, m.mutReceiver, ⟨m.name, [], params, false, ret, m.span⟩⟩) m.span m.name

def methods : List MethodItem → Register Unit
  | [] => return
  | m :: ms => do
    method m
    methods ms

def declareStructs : List StructItem → Register (List (Option DeclId))
  | [] => return []
  | s :: ss => do
    let id ← declare s.name s.span s.generics (.struct [] [])
    return id :: (← declareStructs ss)

def declareEnums : List EnumItem → Register (List (Option DeclId))
  | [] => return []
  | e :: es => do
    let id ← declare e.name e.span [] (.enum (.prim .i32) [] [])
    return id :: (← declareEnums es)

def declareInterfaces : List InterfaceItem → Register (List (Option DeclId))
  | [] => return []
  | i :: is => do
    let id ← declare i.name i.span i.generics (.interface i.isSealed [])
    return id :: (← declareInterfaces is)

def declarations (m : Module) : Register Unit := do
  let structIds ← declareStructs m.structs
  let enumIds ← declareEnums m.enums
  let interfaceIds ← declareInterfaces m.interfaces
  aliases m.aliases
  setGenerics structIds (m.structs.map (·.generics))
  setGenerics interfaceIds (m.interfaces.map (·.generics))
  consts m.consts
  structs structIds m.structs
  enums enumIds m.enums
  functions m.functions
  methods m.methods

end Register

end TypeFlow
