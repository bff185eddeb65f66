import TypeFlow.Infer.Trace

namespace TypeFlow

inductive ErrorPolicy where
  | recover
  | abort
  deriving DecidableEq, Repr

structure BodyContext where
  registry : Registry := {}
  generics : Generics := []
  returnType : Ty := .unit
  policy : ErrorPolicy := .recover
  -- The ids of types, which depend on what was checked before.
  ids : Ty → Nat := fun _ => 0

def BodyContext.bounds (c : BodyContext) : Bounds := .ofGenerics c.generics

structure BodyState where
  scope : Scope := {}
  flow : FlowStack := {}
  loopDepth : Nat := 0
  aborted : Bool := false
  types : List (Nat × Ty) := []
  insts : List (Nat × Instantiation) := []
  errors : List CheckError := []
  nextVar : Nat := 0

namespace BodyState

def typeOf (s : BodyState) (id : Nat) : Option Ty := s.types.lookup id

def instOf (s : BodyState) (id : Nat) : Option Instantiation := s.insts.lookup id

def point (s : BodyState) : Point := ⟨s.scope, s.flow⟩

end BodyState

abbrev Infer := ReaderT BodyContext (StateT BodyState Traced)

namespace Infer

section Run

variable {α : Type} (c : BodyContext) (x : Infer α) (s : BodyState)

def value : α := ((x.run c).run s).value.1

def after : BodyState := ((x.run c).run s).value.2

def steps : List Step := ((x.run c).run s).steps

end Run

def registry : Infer Registry := return (← read).registry

def isAborted : Infer Bool := return (← get).aborted

def report (span : Span) (cause : Cause) : Infer Ty := do
  let policy := (← read).policy
  modify fun s =>
    { s with errors := s.errors ++ [⟨span, cause⟩], aborted := s.aborted || policy == .abort }
  return .error

def store (id : Nat) (ty : Ty) : Infer Unit := modify fun s => { s with types := (id, ty) :: s.types }

def recordInst (id : Nat) (inst : Instantiation) : Infer Unit :=
  modify fun s => { s with insts := (id, inst) :: s.insts }

def takeVars (count : Nat) : Infer Nat := do
  let base := (← get).nextVar
  modify fun s => { s with nextVar := base + count }
  return base

def assignable (value target : Ty) : Infer Bool :=
  return (← read).registry.assignableIn (← read).bounds value target

def resolveType (w : Written) (span : Span) : Infer Ty := do
  match (← read).registry.resolve (← read).generics w with
  | .ok t => return t
  | .error e => report span (.ofResolve e)

def lookupLocal (name : String) : Infer (Option Local) := return (← get).scope.lookup name

def narrowing (p : Path) : Infer (Option Narrowing) := return (← get).flow.top.get p

def narrowed (p : Path) : Infer (Option Ty) := return (← get).flow.top.narrowed p

def perform (a : Step) : Infer Unit := fun c s =>
  let p := a.act c.registry s.point
  ⟨⟨⟨⟩, { s with scope := p.scope, flow := p.flow }⟩, [a]⟩

def pushBranch (facts : List FlowFact) : Infer Unit := perform (.push facts)

def popBranch : Infer Layer := do
  let layer := (← get).flow.pop.1
  perform .pop
  return layer

def applyFacts (facts : List FlowFact) : Infer Unit := perform (.apply facts)

def joinBranches (outcomes : List Outcome) : Infer Unit := perform (.join outcomes)

def invalidate (p : Path) : Infer Unit := perform (.forget p)

-- Bind a name in the current scope. What was proven of another binding of the name is forgotten.
def bindLocal (name : String) (ty : Ty) (mutable : Bool) : Infer Unit := do
  invalidate ⟨name, []⟩
  perform (.bind name ⟨ty, mutable⟩)

def enterScope : Infer Unit := perform .enter

def leaveScope : Infer Unit := perform .leave

def readLocal (name : String) (l : Local) : Infer Ty := do
  let t := (← narrowed ⟨name, []⟩).getD l.ty
  perform (.read name t)
  return t

def declaredFrom (ty : Ty) (before : Path) : List String → Infer (Option Ty)
  | [] => return some ty
  | f :: fs => do
    let receiver := (← narrowed before).getD ty
    match (← registry).fieldType receiver f with
    | some t => declaredFrom t (before.field f) fs
    | none => return none

def declaredType (p : Path) : Infer (Option Ty) := do
  match ← lookupLocal p.root with
  | some l => declaredFrom l.ty ⟨p.root, []⟩ p.fields
  | none => return none

def narrowable (path : Option Path) : Infer (Option (Path × Ty)) := do
  match path with
  | none => return none
  | some p => return (← declaredType p).map fun t => (p, t)

def localPath (path : Option Path) : Infer (Option Path) := do
  match path with
  | none => return none
  | some p => return (← lookupLocal p.root).map fun _ => p

def requireMutable (p : Path) (span : Span) : Infer Unit := do
  match ← lookupLocal p.root with
  | some l => unless l.mutable do discard <| report span (.assignToImmutable p.root)
  | none => return

def overwrite (p : Path) : Infer Unit := perform (.write p)

def write (p : Path) (span : Span) : Infer Unit := do
  requireMutable p span
  overwrite p

end Infer

end TypeFlow
