import TypeFlow.Flow.Layer

namespace TypeFlow

structure Outcome where
  layer : Layer
  terminal : Bool
  deriving DecidableEq, Repr

structure FlowStack where
  top : Layer := {}
  below : List Layer := []
  deriving DecidableEq, Repr

namespace FlowStack

def depth (s : FlowStack) : Nat := s.below.length + 1

def apply (r : Registry) (s : FlowStack) (fs : List FlowFact) : FlowStack :=
  { s with top := s.top.applyAll r fs }

def push (r : Registry) (s : FlowStack) (fs : List FlowFact) : FlowStack :=
  ⟨s.top.applyAll r fs, s.top :: s.below⟩

def pop (s : FlowStack) : Layer × FlowStack :=
  match s.below with
  | [] => (s.top, s)
  | l :: ls => (s.top, ⟨l, ls⟩)

def joined (r : Registry) (outcomes : List Outcome) : Option Layer :=
  match (outcomes.filter fun o => !o.terminal).map (·.layer) with
  | [] => none
  | l :: ls => some (ls.foldl (Layer.merge r) l)

-- Replace the top layer by what holds after the arms. Code after arms that are all terminal is not
-- reached, and the layer stays.
def join (r : Registry) (s : FlowStack) (outcomes : List Outcome) : FlowStack :=
  { s with top := (joined r outcomes).getD s.top }

def invalidate (s : FlowStack) (p : Path) : FlowStack := { s with top := s.top.invalidate p }

@[simp] theorem pop_push (r : Registry) (s : FlowStack) (fs : List FlowFact) :
    (s.push r fs).pop = (s.top.applyAll r fs, s) := rfl

@[simp] theorem depth_push (r : Registry) (s : FlowStack) (fs : List FlowFact) :
    (s.push r fs).depth = s.depth + 1 := rfl

@[simp] theorem depth_apply (r : Registry) (s : FlowStack) (fs : List FlowFact) :
    (s.apply r fs).depth = s.depth := rfl

@[simp] theorem depth_join (r : Registry) (s : FlowStack) (os : List Outcome) :
    (s.join r os).depth = s.depth := rfl

end FlowStack

end TypeFlow
