import TypeFlow.Solve.Instantiation

namespace TypeFlow

structure Equation where
  pattern : Ty
  actual : Ty
  -- A weak equation comes from a literal. It binds what no other equation binds, and agrees with
  -- any stronger binding.
  weak : Bool := false
  deriving DecidableEq, Repr

structure Opening where
  base : Nat
  generics : Generics

namespace Opening

def vars (o : Opening) : List Ty := (List.range' o.base o.generics.length).map Ty.var

def openTy (o : Opening) (t : Ty) : Ty := t.substParams o.vars

def paramName (o : Opening) (var : Nat) : String :=
  if o.base ≤ var then ((o.generics[var - o.base]?).map (·.name)).getD "" else ""

end Opening

structure Solution where
  strong : Ty.VarBindings := []
  weak : Ty.VarBindings := []
  deriving DecidableEq, Repr

namespace Solution

def get (s : Solution) (var : Nat) : Option Ty := (s.strong.lookup var).or (s.weak.lookup var)

def bind (o : Opening) (weak : Bool) (var : Nat) (actual : Ty) (s : Solution) :
    Except SolveError Solution :=
  match s.strong.lookup var with
  | some t =>
    if t == actual || weak then .ok s else .error (.conflicting (o.paramName var) t actual)
  | none =>
    if weak then
      match s.weak.lookup var with
      | some t => if t == actual then .ok s else .error (.conflicting (o.paramName var) t actual)
      | none => .ok { s with weak := (var, actual) :: s.weak }
    else .ok { s with strong := (var, actual) :: s.strong }

end Solution

namespace Registry

def interfaceArgs (r : Registry) (decl : DeclId) (t : Ty) : Option (List Ty) :=
  (r.interfacesOf t).findSome? fun i =>
    match i with
    | .interface d args => if d == decl then some args else none
    | _ => none

mutual

-- Learn from an equation. Nothing is learnt from a pattern without unknowns, nor where the
-- structures differ: assignability is checked elsewhere.
def unify (r : Registry) (o : Opening) (weak : Bool) (pattern actual : Ty) (s : Solution) :
    Except SolveError Solution :=
  if !pattern.flags.hasVar || actual.isError || actual.isNever || actual.isUntyped then .ok s
  else
    match pattern with
    | .var v => s.bind o weak v actual
    | .pointer _ p =>
      match actual with
      | .pointer _ a => unify r o weak p a s
      | _ => .ok s
    | .reference _ p =>
      match actual with
      | .reference _ a => unify r o weak p a s
      | _ => .ok s
    | .fixedArray _ p =>
      match actual with
      | .fixedArray _ a => unify r o weak p a s
      | _ => .ok s
    | .dynArray p =>
      match actual with
      | .dynArray a => unify r o weak p a s
      | _ => .ok s
    | .channel p =>
      match actual with
      | .channel a => unify r o weak p a s
      | _ => .ok s
    | .map pk pv =>
      match actual with
      | .map ak av => do unify r o weak pv av (← unify r o weak pk ak s)
      | _ => .ok s
    | .tuple ps =>
      match actual with
      | .tuple as => if ps.length == as.length then unifyAll r o weak ps as s else .ok s
      | _ => .ok s
    | .function ps _ pr =>
      match actual with
      | .function as _ ar =>
        if ps.length == as.length then do unify r o weak pr ar (← unifyAll r o weak ps as s)
        else .ok s
      | _ => .ok s
    | .named d ps =>
      match actual with
      | .named e as => if d == e then unifyAll r o weak ps as s else .ok s
      | _ => .ok s
    | .interface d ps =>
      match actual with
      | .interface e as => if d == e then unifyAll r o weak ps as s else .ok s
      | .named .. =>
        match r.interfaceArgs d actual with
        | some as => unifyAll r o weak ps as s
        | none => .ok s
      | _ => .ok s
    | .option p =>
      match actual with
      | .option a => unify r o weak p a s
      | _ => unify r o weak p actual s
    | .result po pe =>
      match actual with
      | .result ao ae => do unify r o weak pe ae (← unify r o weak po ao s)
      | _ => unify r o weak po actual s
    | _ => .ok s

def unifyAll (r : Registry) (o : Opening) (weak : Bool) :
    List Ty → List Ty → Solution → Except SolveError Solution
  | p :: ps, a :: as, s => do unifyAll r o weak ps as (← unify r o weak p a s)
  | _, _, s => .ok s

end

def unifyEqs (r : Registry) (o : Opening) (weak : Bool) (eqs : List Equation) (s : Solution) :
    Except SolveError Solution :=
  (eqs.filter (·.weak == weak)).foldlM
    (fun s eq => r.unify o weak (o.openTy eq.pattern) eq.actual s) s

def readBindings (s : Solution) : Nat → Generics → List Ty → Except SolveError (List Ty)
  | _, [], done => .ok done
  | v, p :: ps, done =>
    let found :=
      match p.kind with
      | .type _ d => (s.get v).or (d.map (Ty.substParams done))
      | .const _ => none
    match found with
    | some t =>
      if t.flags.hasVar then .error (.unresolved p.name) else readBindings s (v + 1) ps (done ++ [t])
    | none => .error (.unresolved p.name)

-- Instantiate by inference, with unknowns numbered from `base`. Strong equations come first, so that
-- a literal never decides what a typed argument contradicts.
def solveInferred (r : Registry) (b : Bounds) (gs : Generics) (base : Nat) (eqs : List Equation) :
    Except SolveError Instantiation := do
  let o : Opening := ⟨base, gs⟩
  let s ← r.unifyEqs o false eqs {}
  let s ← r.unifyEqs o true eqs s
  let tys ← readBindings s base gs []
  r.finish b gs ((gs.zip tys).map fun (p, t) => (p.name, .type t))

end Registry

end TypeFlow
