import TypeFlow.Infer.Literal

namespace TypeFlow.Infer

def negated (operand : Child) (expected : Option Ty) : Infer Ty := do
  let t ← operand.infer expected
  if t.isError then return .error
  match t.primitive?.bind (·.category) with
  | some .signed | some .float => return t
  | _ => report operand.span (.invalidOperand .neg t)

-- Negation of an integer literal, which is one literal: the least value of a type has no positive
-- counterpart.
def negatedInt (site : Site) (value : Int64) (expected : Option Ty) : Infer Ty := do
  let t := Ty.ofInt (-value.toInt) expected
  store site.id t
  return t

def operandTypes (left right : Child) (hint : Option Ty) : Infer (Ty × Ty) := do
  if left.expr.isUntypedLiteral && !right.expr.isUntypedLiteral then
    let r ← right.infer hint
    let l ← left.infer (some r)
    return (l, r)
  else
    let l ← left.infer hint
    let r ← right.infer (some l)
    return (l, r)

def commonPrimitive (l r : Ty) : Option Primitive := if l == r then l.primitive? else none

def isOrdered (p : Primitive) : Bool := p.isNumeric || p == .string || p == .rune

def binary (span : Span) (op : BinaryOp) (left right : Child) (expected : Option Ty) : Infer Ty := do
  let (l, r) ← operandTypes left right (if op.isComparison then none else expected)
  if l.isError || r.isError then
    return if op.isComparison then .prim .bool else .error
  let invalid := Cause.invalidOperands op l r
  let common := commonPrimitive l r
  match op with
  | .eq | .notEq =>
    unless (← assignable l r) || (← assignable r l) do discard <| report span invalid
    return .prim .bool
  | .lt | .ltEq | .gt | .gtEq =>
    unless common.any isOrdered do discard <| report span invalid
    return .prim .bool
  | .add =>
    if common == some .string then return .prim .string
    else if common.any (·.isNumeric) then return l
    else report span invalid
  | .sub | .mul | .div => if common.any (·.isNumeric) then return l else report span invalid
  | .rem => if common.any (·.isInteger) then return l else report span invalid
  | .and | .or => return .prim .bool

end TypeFlow.Infer
