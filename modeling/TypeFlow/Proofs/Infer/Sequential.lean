import TypeFlow.Proofs.Infer.Rules.Nodes

namespace TypeFlow

def Step.branches : Step → Bool
  | push _ | pop => true
  | _ => false

theorem Step.Amends.branches {r : Registry} {a : Step} {f : Layer → Layer} (h : a.Amends r f) : a.branches = false := by
  cases h <;> rfl

structure Infer.Sequential (c : BodyContext) (pattern : Ty → Prop) (P : ∀ {α : Type}, Infer α → Prop) :
    Prop where
  pure : ∀ {α : Type} (a : α), P (Pure.pure a)
  bind : ∀ {α β : Type} {x : Infer α} {f : α → Infer β}, P x → (∀ a, P (f a)) → P (x >>= f)
  read : ∀ {α : Type} {f : BodyContext → Infer α}, (∀ p ids, f { c with policy := p, ids } = f c) → P (f c) →
    P (MonadReader.read >>= f)
  look : P Infer.look
  isAborted : P Infer.isAborted
  report : ∀ span cause, P (Infer.report span cause)
  joinArms : ∀ span arms x, P (Infer.joinArms span arms x)
  perform : ∀ {a}, a.branches = false → P (Infer.perform a)
  store : ∀ i t, P (Infer.store i t)
  recordInst : ∀ i inst, P (Infer.recordInst i inst)
  solve : ∀ gs {eqs}, (∀ q ∈ eqs, pattern q.pattern) → P (Infer.solve gs eqs)
  setDepth : ∀ f : Nat → Nat, P (modify fun s => { s with loopDepth := f s.loopDepth } : Infer Unit)
  inBranch : ∀ {α : Type} {x : Infer α} (fs : List FlowFact), P x → P (Infer.inBranch fs x)

variable {c : BodyContext} {pattern : Ty → Prop} {P : ∀ {α : Type}, Infer α → Prop} {α : Type}

namespace Infer.Sequential

theorem bindLocal (hP : Sequential c pattern P) (x : String) (t : Ty) (m : Bool) : P (Infer.bindLocal x t m) :=
  hP.bind (hP.perform (a := .forget ⟨x, []⟩) rfl) fun _ => hP.perform (a := .bind x ⟨t, m⟩) rfl

theorem readLocal (hP : Sequential c pattern P) (x : String) (l : Local) : P (Infer.readLocal x l) := by
  have hnarrowed : P (do return (·.layer.narrowed ⟨x, []⟩) (← Infer.look)) := hP.bind hP.look fun _ => hP.pure _
  exact hP.bind hnarrowed fun t => hP.bind (hP.perform (a := .read x (t.getD l.ty)) rfl) fun _ => hP.pure _

theorem inScope (hP : Sequential c pattern P) {x : Infer α} (hx : P x) : P (Infer.inScope x) :=
  hP.bind (hP.perform (a := .enter) rfl) fun _ => hP.bind hx fun _ => hP.bind (hP.perform (a := .leave) rfl) fun _ => hP.pure _

theorem inLoop (hP : Sequential c pattern P) {x : Infer α} (hx : P x) : P (Infer.inLoop x) :=
  hP.bind (hP.setDepth (· + 1)) fun _ => hP.bind hx fun _ =>
    hP.bind (hP.setDepth (· - 1)) fun _ => hP.pure _

theorem visit (hP : Sequential c pattern P) {act : Infer Typed} (h : P act) (site : Site) :
    P (Infer.visit site act) := by
  refine hP.bind hP.isAborted fun b => ?_
  cases b with
  | true => exact hP.pure _
  | false =>
    refine hP.bind h fun t => hP.bind hP.isAborted fun b => ?_
    cases b with
    | true => exact hP.pure _
    | false => exact hP.bind (hP.store _ _) fun _ => hP.pure _

theorem requireAssignable (hP : Sequential c pattern P) (span : Span) (t u : Ty) :
    P (Infer.requireAssignable span t u) := by
  have hassignable : P (Infer.assignable u t) :=
    hP.read (fun _ _ => rfl) (hP.read (fun _ _ => rfl) (hP.pure (c.registry.assignableIn c.bounds u t)))
  refine hP.bind hP.isAborted fun a => hP.bind hassignable fun b => ?_
  split
  · exact hP.pure _
  · exact hP.bind (hP.report _ _) fun _ => hP.pure _

theorem check (hP : Sequential c pattern P) {ch : Child} (h : ∀ x used, P (ch.run x used)) (t : Ty) :
    P (Infer.check ch t) :=
  hP.bind (hP.bind (h (some t) true) fun _ => hP.pure _) fun _ =>
    hP.bind (hP.requireAssignable _ _ _) fun _ => hP.pure _

end Infer.Sequential

theorem Plan.sequential {T : Theory c} {A : Prop} {g : Spot} {us : List Turn} {x : Infer α}
    {Q : α → Spot → Prop} (hP : Infer.Sequential c T.pattern P)
    (hruns : ∀ ch, T.runs ch → ∀ y used, P (ch.run y used)) (h : Plan T A g us x Q) : P x := by
  induction h with
  | pure => exact hP.pure _
  | @bind _ _ _ g _ _ _ _ _ _ _ _ hx hf => exact hP.bind hx fun a => hf a g rfl
  | mono _ _ _ _ _ hx => exact hx
  | read _ hp hf => exact hP.read hp hf
  | look => exact hP.look
  | report span cause => exact hP.report span cause
  | amend ha => exact hP.perform ha.branches
  | readLocal => exact hP.readLocal _ _
  | control => exact hP.perform rfl
  | joinArms => exact hP.joinArms _ _ _
  | bindLocal => exact hP.bindLocal _ _ _
  | note => exact hP.store _ _
  | solve hpattern => exact hP.solve _ hpattern
  | recordInst => exact hP.recordInst _ _
  | inBranch _ _ hx => exact hP.inBranch _ hx
  | inScope _ hx => exact hP.inScope hx
  | inLoop _ hx => exact hP.inLoop hx
  | child used hc => exact hruns _ hc _ used
  | draft hc => exact hruns _ hc none true

theorem Infer.Sequential.runs {T : Theory c} (hP : Sequential c T.pattern P)
    (hT : ∀ ch, T.runs ch ↔ ∀ x used, P (ch.run x used)) (habout : ∀ p, T.about p)
    (hwritten : ∀ w, T.written w) (hgathers : ∀ p, T.gathers p) (hwanted : ∀ x, T.Suggests x) (e : Expr) :
    T.runs e.asChild := by
  refine Expr.runs_of_plans habout hwritten hgathers hwanted ((hT _).mpr fun _ _ => hP.pure _)
    (fun e site _ hplans => ?_) e
  refine (hT _).mpr fun x used => ?_
  obtain ⟨act, Q, hrun, hplan⟩ := hplans x used {}
  rw [hrun]
  exact hP.visit (hplan.sequential hP fun ch hc => (hT ch).mp hc) site

end TypeFlow
