import TypeFlow.Infer.Child

namespace TypeFlow

namespace Registry

def canHold (r : Registry) (tested target : Ty) : Bool :=
  target == tested ||
    match tested with
    | .interface .. => r.implements target tested
    | .union ms => ms.contains target
    | _ => false

end Registry

namespace Ty

def isOpen (t : Ty) : Bool := t.isInterface || t.isUnion

end Ty

def Narrowing.rulesOut (n : Narrowing) (target : Ty) : Bool :=
  n.excludes target || (!n.ty.isOpen && n.ty != target)

namespace Infer

def factsOf (path : Option (Path × Ty)) (whenTrue whenFalse : Fact) : Facts :=
  match path with
  | some (p, declared) => ⟨[⟨p, declared, whenTrue⟩], [⟨p, declared, whenFalse⟩]⟩
  | none => {}

def narrowingOf (path : Option (Path × Ty)) : Infer (Option Narrowing) :=
  match path with
  | some (p, _) => narrowing p
  | none => return none

-- Whether a type test can hold; it is reported if not. A value read as an interface or a union is
-- tested as that type, any other as what it was declared.
def typeTest (subject : Ty) (path : Option (Path × Ty)) (target : Ty) (span : Span) : Infer Bool := do
  if subject.isError || target.isError then return false
  match (← narrowingOf path).filter (·.rulesOut target) with
  | some n =>
    discard <| report span (.impossibleTypeTest n.ty target)
    return false
  | none =>
    let tested := if subject.isOpen then subject else (path.map (·.2)).getD subject
    if (← registry).canHold tested target then return true
    discard <| report span (.invalidNarrowingTarget tested target)
    return false

def isTest (span : Span) (operand : Child) (ty : Written) : Infer Facts := do
  let subject ← operand.infer none
  let target ← resolveType ty span
  let path ← narrowableChild operand
  if ← typeTest subject path target span then return factsOf path (.is target) (.isNot target)
  return {}

def noneCheck (span : Span) (operand : Child) : Infer Facts := do
  let subject ← operand.infer none
  if subject.isError then return {}
  match subject.optionInner with
  | none =>
    discard <| report span (.notAnOption subject)
    return {}
  | some _ => return factsOf (← narrowableChild operand) .isNone .notNone

def conjunction (left right : Child) : Infer Facts := do
  let l ← condition left
  pushBranch l.whenTrue
  let r ← condition right
  discard popBranch
  return ⟨l.whenTrue ++ r.whenTrue, []⟩

def disjunction (left right : Child) : Infer Facts := do
  let l ← condition left
  pushBranch l.whenFalse
  let r ← condition right
  discard popBranch
  return ⟨[], l.whenFalse ++ r.whenFalse⟩

def negation (operand : Child) : Infer Facts := return (← condition operand).swap

def negatedIf (flag : Bool) (act : Infer Facts) : Infer Facts := do
  let f ← act
  return if flag then f.swap else f

end Infer

end TypeFlow
