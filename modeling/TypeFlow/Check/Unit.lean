import TypeFlow.Check.Bodies
import TypeFlow.Diagnostic.Queue

namespace TypeFlow

structure CheckConfig where
  policy : ErrorPolicy := .recover
  -- The most errors that are turned into diagnostics; zero means all.
  errorLimit : Nat := 0
  deriving DecidableEq, Repr

structure CheckResult where
  registry : Registry
  errors : List CheckError
  types : List (Option Ty)
  insts : List (Nat × Instantiation)
  diagnostics : List Diagnostic
  guarantee : Option ErrorGuarantee
  nextVar : Nat

namespace Module

def checkNumbered (m : Module) (count : Nat) (config : CheckConfig) : CheckResult :=
  let reg := ((Register.declarations m).run {}).2
  let bodies := reg.consts ++
    BodyJob.runAll reg.registry config.policy reg.nextVar (BodyJob.ofModule reg.registry m)
  let errors := reg.errors ++ bodies.flatMap (·.errors)
  -- Bodies share no nodes, and within a body the latest record comes first.
  let types := bodies.flatMap (·.types)
  let insts := bodies.flatMap (·.insts)
  let queue := DiagnosticQueue.addAll { config := { errorLimit := config.errorLimit } }
    (errors.map (·.diagnostic reg.registry))
  { registry := reg.registry
    errors
    types := (List.range count).map fun id => types.lookup id
    insts := (List.range count).filterMap fun id => (insts.lookup id).map fun i => (id, i)
    diagnostics := queue.flush.1
    guarantee := queue.guarantee
    nextVar := ((bodies.getLast?).map (·.nextVar)).getD reg.nextVar }

def check (m : Module) (config : CheckConfig := {}) : CheckResult :=
  let (m, count) := m.number
  m.checkNumbered count config

end Module

end TypeFlow
