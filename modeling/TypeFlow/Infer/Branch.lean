import TypeFlow.Infer.Condition

namespace TypeFlow

namespace BodyContext

-- Arms without a join have the expected type if they all fit it.
def expectedOr (c : BodyContext) (arms : List Ty) (expected : Option Ty) : Except JoinError Ty → Except JoinError Ty
  | .ok t => .ok t
  | .error e =>
    match expected with
    | some t => if arms.all (c.registry.assignableIn c.bounds · t) then .ok t else .error e
    | none => .error e

def joinArms (c : BodyContext) (arms : List Ty) (expected : Option Ty) : Except JoinError Ty :=
  c.expectedOr arms expected (c.registry.joinAll c.ids arms)

end BodyContext

namespace Infer

def joined (span : Span) : Except JoinError Ty → Infer Ty
  | .ok t => return t
  | .error e => report span (.ofJoin e)

def joinArms (span : Span) (arms : List Ty) (expected : Option Ty) : Infer Ty := do
  joined span ((← read).joinArms arms expected)

def branchType (span : Span) (arms : List Ty) (expected : Option Ty) (used : Bool) : Infer Ty :=
  if used then joinArms span arms expected
  else return if !arms.isEmpty && arms.all (·.isNever) then .never else .unit

def elseArm (branch : Child) (expected : Option Ty) (used : Bool) : Infer Ty :=
  if branch.expr.isPresent then branch.inferIn expected used else return .unit

def twoArms (span : Span) (thenTy elseTy : Ty) (hasElse : Bool) (expected : Option Ty)
    (used : Bool) : Infer Ty :=
  if hasElse then branchType span [thenTy, elseTy] expected used else return .unit

def cond (span : Span) (test thenBranch elseBranch : Child) (expected : Option Ty) (used : Bool) :
    Infer Ty := do
  let facts ← condition test
  pushBranch facts.whenTrue
  let thenTy ← thenBranch.inferIn expected used
  let thenLayer ← popBranch
  pushBranch facts.whenFalse
  let elseTy ← elseArm elseBranch expected used
  let elseLayer ← popBranch
  joinBranches [⟨thenLayer, thenTy.isNever⟩, ⟨elseLayer, elseTy.isNever⟩]
  twoArms span thenTy elseTy elseBranch.expr.isPresent expected used

def guardPayload (value : Child) (ty : Ty) : Infer Ty := do
  match ty with
  | .option t => return t
  | .error => return .error
  | t => report value.span (.notAnOption t)

def guardBind (span : Span) (binding : String) (value thenBranch elseBranch : Child)
    (expected : Option Ty) (used : Bool) : Infer Ty := do
  let payload ← guardPayload value (← value.infer none)
  let facts := factsOf (← narrowableChild value) .notNone .isNone
  pushBranch facts.whenTrue
  enterScope
  bindLocal binding payload false
  let thenTy ← thenBranch.inferIn expected used
  leaveScope
  let thenLayer ← popBranch
  pushBranch facts.whenFalse
  let elseTy ← elseArm elseBranch expected used
  let elseLayer ← popBranch
  joinBranches [⟨thenLayer, thenTy.isNever⟩, ⟨elseLayer, elseTy.isNever⟩]
  twoArms span thenTy elseTy elseBranch.expr.isPresent expected used

def armPattern (subject : Ty) (path : Option (Path × Ty)) (arm : ArmChild) : Infer (Option Ty) := do
  match arm.pattern with
  | .value c =>
    let t ← c.infer (some subject)
    unless t.isError || subject.isError || (← assignable t subject) || (← assignable subject t) do
      discard <| report c.span (.mismatch subject t)
    return none
  | .type w =>
    let t ← resolveType w arm.span
    return if ← typeTest subject path t arm.span then some t else none

def armFact (path : Option (Path × Ty)) (target : Option Ty) (fact : Ty → Fact) : List FlowFact :=
  match path, target with
  | some (p, declared), some t => [⟨p, declared, fact t⟩]
  | _, _ => []

-- The outcomes and types of arms in order. Within its arm a type pattern narrows the matched path,
-- and it is excluded from the arms after it.
def arms (subject : Ty) (path : Option (Path × Ty)) (expected : Option Ty) (used : Bool) :
    List ArmChild → Infer (List (Outcome × Ty))
  | [] => return []
  | arm :: rest => do
    let target ← armPattern subject path arm
    pushBranch (armFact path target .is)
    let t ← arm.body.inferIn expected used
    let layer ← popBranch
    applyFacts (armFact path target .isNot)
    return (⟨layer, t.isNever⟩, t) :: (← arms subject path expected used rest)

-- The `else` arm. A missing one stands for falling through, which is impossible once the type arms
-- left nothing.
def lastArm (path : Option (Path × Ty)) (branch : Child) (expected : Option Ty) (used : Bool) :
    Infer (Outcome × Option Ty) := do
  if branch.expr.isPresent then
    pushBranch []
    let t ← branch.inferIn expected used
    let layer ← popBranch
    return (⟨layer, t.isNever⟩, some t)
  else
    let known ← narrowingOf path
    return (⟨(← get).flow.top, known.any (·.ty.isNever)⟩, none)

def matchOn (span : Span) (scrutinee : Child) (armList : List ArmChild) (elseBranch : Child)
    (expected : Option Ty) (used : Bool) : Infer Ty := do
  let subject ← scrutinee.infer none
  let path ← narrowableChild scrutinee
  pushBranch []
  let results ← arms subject path expected used armList
  let (lastOutcome, lastTy) ← lastArm path elseBranch expected used
  discard popBranch
  let outcomes := results.map (·.1) ++ [lastOutcome]
  joinBranches outcomes
  if used then branchType span (results.map (·.2) ++ lastTy.toList) expected used
  else return if outcomes.all (·.terminal) then .never else .unit

def bindStmt (span : Span) (name : String) (mutable : Bool) (ty : Option Written) (init : Child) :
    Infer Ty := do
  match ty with
  | some w =>
    let declared ← resolveType w span
    let t ← if declared.isError then init.infer none else check init declared
    bindLocal name declared mutable
    return if t.isNever then .never else .unit
  | none =>
    let t ← init.infer none
    let declared ← if t.isUntyped then report init.span .untypedLiteral else pure t
    bindLocal name declared mutable
    return if t.isNever then .never else .unit

-- Writing to an element or to a field of what is no path: the root is written through.
def writeThrough (root : Expr) (span : Span) : Infer Unit := do
  match root with
  | .ident _ name =>
    match ← lookupLocal name with
    | some _ => write ⟨name, []⟩ span
    | none =>
      if ((← registry).constant name).isSome then
        discard <| report span (.assignToImmutable name)
  | _ => return

-- An assignment. A path is assigned against its declared type, whatever is known of its value.
def assignStmt (span : Span) (target value : Child) : Infer Unit := do
  let t ← target.infer none
  match ← localPath target.path? with
  | some p =>
    requireMutable p span
    match ← declaredType p with
    | some declared => discard <| check value declared
    | none => discard <| value.infer none
    overwrite p
  | none =>
    writeThrough target.expr.writeRoot span
    if t.isError then discard <| value.infer none
    else discard <| check value t

def stmt : StmtChild → Infer Ty
  | .bind span name mutable ty init => bindStmt span name mutable ty init
  | .assign span target value => do
    assignStmt span target value
    return .unit
  | .expr value => value.discarded

def stmts : List StmtChild → Infer Bool
  | [] => return false
  | s :: ss => do
    let t ← stmt s
    if ← isAborted then return t.isNever
    return (← stmts ss) || t.isNever

def block (body : List StmtChild) (result : Child) (expected : Option Ty) (used : Bool) :
    Infer Ty := do
  enterScope
  let diverges ← stmts body
  let t ← elseArm result expected used
  leaveScope
  return if diverges then .never else t

def returned (span : Span) (value : Child) : Infer Ty := do
  let ret := (← read).returnType
  if value.expr.isPresent then discard <| check value ret
  else unless ret == .unit || ret.isError do
    discard <| report span (.mismatch ret .unit)
  return .never

def loopControl (span : Span) (control : LoopControl) : Infer Ty := do
  let depth := (← get).loopDepth
  if depth == 0 then discard <| report span (.controlOutsideLoop control)
  else perform (.control control depth)
  return .never

def invalidateAll : List Path → Infer Unit
  | [] => return
  | p :: ps => do
    invalidate p
    invalidateAll ps

-- A loop. What the body may write is forgotten before the condition is checked, since the body may
-- have run before; what the body proves is lost after it. Without a `break` the loop ends only when its
-- condition is false.
def loop (test body : Child) : Infer Ty := do
  invalidateAll (body.expr.written (← registry))
  let facts ← condition test
  pushBranch facts.whenTrue
  modify fun s => { s with loopDepth := s.loopDepth + 1 }
  discard body.discarded
  modify fun s => { s with loopDepth := s.loopDepth - 1 }
  discard popBranch
  if body.expr.breaks then return .unit
  if test.expr.isPresent then
    applyFacts facts.whenFalse
    return .unit
  else return .never

end Infer

end TypeFlow
