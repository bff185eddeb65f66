import TypeFlow.Check.Registration

namespace TypeFlow

structure BodyJob where
  generics : Generics
  params : List ParamSig
  ret : Ty
  body : Expr

namespace BodyJob

-- Within the body the last parameter of a variadic function is an array.
def packLast : List ParamSig → List ParamSig
  | [] => []
  | [p] => [{ p with ty := .dynArray p.ty }]
  | p :: ps => p :: packLast ps

def ofFunction (r : Registry) (f : FunctionItem) : Option BodyJob :=
  match r.function f.name with
  | some sig =>
    if sig.span == f.span && f.body.isPresent then
      some ⟨sig.generics, if sig.variadic then packLast sig.params else sig.params, sig.ret, f.body⟩
    else none
  | none => none

def ofMethod (r : Registry) (m : MethodItem) : Option BodyJob := do
  let id ← r.declNamed m.receiverType
  let sig ← r.method id m.name
  let info ← r.decl? id
  if sig.sig.span == m.span && m.body.isPresent then
    let receiver := info.instantiate id (info.generics.map (·.ty))
    some ⟨info.generics, ⟨m.receiverName, receiver, sig.mutReceiver⟩ :: sig.sig.params,
      sig.sig.ret, m.body⟩
  else none

def ofModule (r : Registry) (m : Module) : List BodyJob :=
  m.functions.filterMap (ofFunction r) ++ m.methods.filterMap (ofMethod r)

def bindParams : List ParamSig → Infer Unit
  | [] => return
  | p :: ps => do
    Infer.bindLocal p.name p.ty p.mutable
    bindParams ps

def check (j : BodyJob) : Infer Unit := do
  bindParams j.params
  if j.ret == .unit then discard j.body.asChild.discarded
  else discard <| Infer.check j.body.asChild j.ret

def context (j : BodyJob) (r : Registry) (policy : ErrorPolicy) (ids : Ty → Nat := fun _ => 0) : BodyContext :=
  { registry := r, generics := j.generics, returnType := j.ret, policy, ids }

def run (r : Registry) (policy : ErrorPolicy) (nextVar : Nat) (j : BodyJob) (ids : Ty → Nat := fun _ => 0) :
    BodyState :=
  j.check.after (j.context r policy ids) { nextVar }

def runAll (r : Registry) (policy : ErrorPolicy) : Nat → List BodyJob → List BodyState
  | _, [] => []
  | n, j :: js =>
    let s := j.run r policy n
    s :: runAll r policy s.nextVar js

end BodyJob

end TypeFlow
