import TypeFlow.Infer.Body
import TypeFlow.Infer.Effects

namespace TypeFlow

structure Facts where
  whenTrue : List FlowFact := []
  whenFalse : List FlowFact := []
  deriving DecidableEq, Repr

def Facts.swap (f : Facts) : Facts := ⟨f.whenFalse, f.whenTrue⟩

structure Typed where
  ty : Ty
  facts : Facts := {}

structure Child where
  expr : Expr
  run : Option Ty → Bool → Infer Typed

inductive GenericChild where
  | type (ty : Written)
  | value (child : Child)

structure FieldChild where
  name : String
  value : Child
  span : Span

structure EntryChild where
  key : Child
  value : Child

inductive PatternChild where
  | type (ty : Written)
  | value (child : Child)

structure ArmChild where
  pattern : PatternChild
  body : Child
  span : Span

inductive StmtChild where
  | bind (span : Span) (name : String) (mutable : Bool) (ty : Option Written) (init : Child)
  | assign (span : Span) (target value : Child)
  | expr (value : Child)

namespace Child

def span (c : Child) : Span := c.expr.span

def path? (c : Child) : Option Path := c.expr.path?

def inferIn (c : Child) (expected : Option Ty) (used : Bool) : Infer Ty :=
  return (← c.run expected used).ty

def infer (c : Child) (expected : Option Ty) : Infer Ty := c.inferIn expected true

def discarded (c : Child) : Infer Ty := c.inferIn none false

end Child

namespace Infer

def requireAssignable (span : Span) (expected found : Ty) : Infer Unit := do
  unless (← isAborted) || (← assignable found expected) do
    discard <| report span (.mismatch expected found)

def check (c : Child) (expected : Ty) : Infer Ty := do
  let found ← c.infer (some expected)
  requireAssignable c.span expected found
  return found

def condition (c : Child) : Infer Facts := do
  let t ← c.run (some (.prim .bool)) true
  requireAssignable c.span (.prim .bool) t.ty
  return t.facts

def inferAll : List Child → Infer Unit
  | [] => return
  | c :: cs => do
    discard <| c.infer none
    inferAll cs

def narrowableChild (c : Child) : Infer (Option (Path × Ty)) := narrowable c.path?

def visit (site : Site) (act : Infer Typed) : Infer Typed := do
  if ← isAborted then return ⟨.error, {}⟩
  let t ← act
  if ← isAborted then return ⟨.error, t.facts⟩
  store site.id t.ty
  return t

def plain (act : Infer Ty) : Infer Typed := return ⟨← act, {}⟩

def proving (act : Infer Facts) : Infer Typed := return ⟨.prim .bool, ← act⟩

end Infer

end TypeFlow
