import TypeFlow.Solve.Instantiation

namespace TypeFlow

inductive ExplicitArg where
  | type (ty : Ty)
  | const (value : ConstValue)
  | notConstant
  deriving DecidableEq, Repr

def ConstValue.inDomain : ConstValue → Ty → Bool
  | .bool _, .prim .bool => true
  | .rune _, .prim .rune => true
  | .int n, .prim p => p.holds n
  | _, _ => false

def GenericParam.bindExplicit (p : GenericParam) (arg : ExplicitArg) :
    Except SolveError GenericBinding :=
  match p.kind, arg with
  | .type .., .type t => .ok (.type t)
  | .const t, .const v =>
    if v.inDomain t then .ok (.const v) else .error (.constDomain p.name v t)
  | .const _, .notConstant => .error (.constNotConstant p.name)
  | .type .., _ => .error (.genericArgKind p.name false)
  | .const _, .type _ => .error (.genericArgKind p.name true)

def bindArgs (missing : SolveError) : Generics → List ExplicitArg → List (String × GenericBinding) →
    Except SolveError (List (String × GenericBinding))
  | [], _, done => .ok done
  | p :: ps, arg :: args, done => do
    let g ← p.bindExplicit arg
    bindArgs missing ps args (done ++ [(p.name, g)])
  | p :: ps, [], done =>
    match p.default with
    | some d => bindArgs missing ps [] (done ++ [(p.name, .type (d.substParams (done.map (·.2.toTy))))])
    | none => .error missing

def Registry.solveExplicit (r : Registry) (b : Bounds) (gs : Generics) (args : List ExplicitArg) :
    Except SolveError Instantiation := do
  let countError := .genericArgCount gs.required gs.length args.length
  if gs.acceptsCount args.length then
    r.finish b gs (← bindArgs countError gs args [])
  else throw countError

end TypeFlow
