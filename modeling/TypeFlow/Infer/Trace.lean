import TypeFlow.Error
import TypeFlow.Flow.Stack
import TypeFlow.Scope

namespace TypeFlow

structure Point where
  scope : Scope := {}
  flow : FlowStack := {}
  deriving DecidableEq, Repr

inductive Step where
  | push (facts : List FlowFact)
  | pop
  | apply (facts : List FlowFact)
  | join (outcomes : List Outcome)
  | forget (path : Path)
  | write (path : Path)
  | enter
  | leave
  | bind (name : String) (binding : Local)
  | read (name : String) (ty : Ty)
  | control (control : LoopControl) (depth : Nat)
  deriving DecidableEq, Repr

namespace Step

-- The point after a step. What is proven of the names of a scope is forgotten with the scope.
def act (r : Registry) (p : Point) : Step → Point
  | push facts => { p with flow := p.flow.push r facts }
  | pop => { p with flow := p.flow.pop.2 }
  | apply facts => { p with flow := p.flow.apply r facts }
  | join outcomes => { p with flow := p.flow.join r outcomes }
  | forget path | write path => { p with flow := p.flow.invalidate path }
  | enter => { p with scope := p.scope.child }
  | leave =>
    { scope := p.scope.parent?.getD p.scope
      flow := p.scope.ownNames.foldl (fun f name => f.invalidate ⟨name, []⟩) p.flow }
  | bind name l => { p with scope := p.scope.bind name l }
  | read .. | control .. => p

end Step

structure Traced (α : Type) where
  value : α
  steps : List Step := []

instance : Monad Traced where
  pure a := { value := a }
  bind x f := ⟨(f x.value).value, x.steps ++ (f x.value).steps⟩

end TypeFlow
