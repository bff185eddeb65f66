import TypeFlow.Proofs.Infer.Frames
import TypeFlow.Proofs.Infer.Sequential

namespace TypeFlow

def BodyState.above (ls : List Layer) (s : BodyState) : BodyState :=
  { s with flow := { s.flow with below := s.flow.below ++ ls } }

namespace Infer

variable {c : BodyContext} {α β : Type} {x : Infer α}

def Shallow (c : BodyContext) (x : Infer α) : Prop :=
  ∀ s ls, x.value c (s.above ls) = x.value c s ∧ x.after c (s.above ls) = (x.after c s).above ls

theorem shallow_pure (a : α) : Shallow c (pure a) := fun _ _ => ⟨rfl, rfl⟩

theorem Shallow.bind {f : α → Infer β} (hx : Shallow c x) (hf : ∀ a, Shallow c (f a)) :
    Shallow c (x >>= f) := by
  intro s ls
  obtain ⟨hvalue, hafter⟩ := hx s ls
  rw [value_bind, value_bind, after_bind, after_bind, hvalue, hafter]
  exact hf _ _ ls

-- What is popped is the layer that was pushed, as the action gives back the layers that it was given.
theorem Shallow.inBranch (hx : Shallow c x) (hb : ∀ s, (x.after c s).flow.below = s.flow.below)
    (fs : List FlowFact) : Shallow c (inBranch fs x) := by
  intro s ls
  let entered : BodyState := { s with flow := s.flow.push c.registry fs }
  obtain ⟨hvalue, hafter⟩ := hx entered ls
  obtain ⟨hrun, hout⟩ := run_inBranch c fs x (s := s) rfl (hb entered)
  obtain ⟨hrun', hout'⟩ := run_inBranch c fs x (s := s.above ls) rfl (hb (entered.above ls))
  have hvalue' : x.value c { s.above ls with flow := (s.above ls).flow.push c.registry fs } =
      x.value c entered := hvalue
  have hafter' : x.after c { s.above ls with flow := (s.above ls).flow.push c.registry fs } =
      (x.after c entered).above ls := hafter
  rw [hrun, hout, hrun', hout', hvalue', hafter']
  exact ⟨rfl, rfl⟩

structure Level (c : BodyContext) (x : Infer α) : Prop where
  shallow : Shallow c x
  below : ∀ s, (x.after c s).flow.below = s.flow.below

theorem level_of_eq (h : ∀ s ls, x.value c (s.above ls) = x.value c s ∧
    x.after c (s.above ls) = (x.after c s).above ls ∧ (x.after c s).flow.below = s.flow.below) :
    Level c x :=
  ⟨fun s ls => ⟨(h s ls).1, (h s ls).2.1⟩, fun s => (h s []).2.2⟩

theorem invalidate_names (names : List String) (f : FlowStack) (ls : List Layer) :
    names.foldl (fun f name => f.invalidate ⟨name, []⟩) { f with below := f.below ++ ls } =
        { names.foldl (fun f name => f.invalidate ⟨name, []⟩) f with
          below := (names.foldl (fun f name => f.invalidate ⟨name, []⟩) f).below ++ ls } := by
  induction names generalizing f with
  | nil => rfl
  | cons name names ih => exact ih (f.invalidate ⟨name, []⟩)

theorem level_perform {a : Step} (ha : a.branches = false) : Level c (perform a) := by
  cases a
  case push | pop => cases ha
  case leave =>
    refine level_of_eq fun s ls => ⟨rfl, ?_, below_leftScope s.scope s⟩
    exact congrArg (fun f => { s with flow := f, scope := s.scope.parent?.getD s.scope })
      (invalidate_names s.scope.ownNames s.flow ls)
  all_goals exact level_of_eq fun _ _ => ⟨rfl, rfl, rfl⟩

theorem level_joinArms (span : Span) (arms : List Ty) (x : Option Ty) : Level c (joinArms span arms x) := by
  rcases run_joinArms c span arms x with ⟨t, -, hrun⟩ | ⟨e, -, hrun⟩
  · exact level_of_eq fun s ls => by simp only [hrun, and_self]
  · refine level_of_eq fun s ls => ?_
    simp only [hrun]
    exact ⟨trivial, rfl, rfl⟩

theorem sequential_level (c : BodyContext) : Sequential c (fun _ => True) fun x => Level c x where
  pure a := ⟨shallow_pure a, fun _ => rfl⟩
  bind hx hf := ⟨hx.shallow.bind fun a => (hf a).shallow, fun s => ((hf _).below _).trans (hx.below s)⟩
  read _ hf := ⟨hf.shallow, hf.below⟩
  look := level_of_eq fun _ _ => ⟨rfl, rfl, rfl⟩
  isAborted := level_of_eq fun _ _ => ⟨rfl, rfl, rfl⟩
  report _ _ := level_of_eq fun _ _ => ⟨rfl, rfl, rfl⟩
  joinArms := level_joinArms
  perform ha := level_perform ha
  store _ _ := level_of_eq fun _ _ => ⟨rfl, rfl, rfl⟩
  recordInst _ _ := level_of_eq fun _ _ => ⟨rfl, rfl, rfl⟩
  solve _ _ _ := level_of_eq fun _ _ => ⟨rfl, rfl, rfl⟩
  setDepth _ := level_of_eq fun _ _ => ⟨rfl, rfl, rfl⟩
  inBranch {_ x} fs hx := by
    refine ⟨hx.shallow.inBranch hx.below fs, fun s => ?_⟩
    rw [(run_inBranch c fs x rfl (hx.below { s with flow := s.flow.push c.registry fs })).1]

end Infer

variable {c : BodyContext}

def Theory.level (c : BodyContext) : Theory c :=
  { Theory.confined c with runs := fun ch => ∀ x used, Infer.Level c (ch.run x used) }

theorem Expr.level (c : BodyContext) (e : Expr) (x : Option Ty) (used : Bool) :
    Infer.Level c (e.asChild.run x used) :=
  (Infer.sequential_level c).runs (T := .level c) (fun _ => Iff.rfl) (fun _ => True.intro)
    (fun _ => True.intro) (fun _ => True.intro) (fun _ _ _ => .inl True.intro) e x used

namespace Infer

variable {α β : Type} {x : Infer α}

structure Framed (c : BodyContext) (x : Infer α) : Prop where
  scope : ∀ s, (x.after c s).scope = s.scope
  loopDepth : ∀ s, (x.after c s).loopDepth = s.loopDepth
  depth : ∀ s, (x.after c s).flow.depth = s.flow.depth
  below : ∀ s, (x.after c s).flow.below = s.flow.below
  errors : ∀ s, s.errors <+: (x.after c s).errors
  entry : Shallow c x

theorem framed_of_restores (h : ∀ s : BodyState, s.Restores (x.after c s)) (hx : Shallow c x) :
    Framed c x where
  scope s := (h s).scope
  loopDepth s := (h s).loopDepth
  depth s := by rw [FlowStack.depth, (h s).below, FlowStack.depth]
  below s := (h s).below
  errors s := (h s).errors
  entry := hx

theorem Framed.bind {f : α → Infer β} (hx : Framed c x) (hf : ∀ a, Framed c (f a)) :
    Framed c (x >>= f) where
  scope s := ((hf _).scope _).trans (hx.scope s)
  loopDepth s := ((hf _).loopDepth _).trans (hx.loopDepth s)
  depth s := ((hf _).depth _).trans (hx.depth s)
  below s := ((hf _).below _).trans (hx.below s)
  errors s := (hx.errors s).trans ((hf _).errors _)
  entry := hx.entry.bind fun a => (hf a).entry

theorem framed_pure (a : α) : Framed c (pure a) :=
  framed_of_restores (fun s => .refl s) (shallow_pure a)

theorem framed_report (span : Span) (cause : Cause) : Framed c (report span cause) :=
  framed_of_restores
    (fun s => ⟨(BodyState.writes_report s span cause).toContinues, rfl⟩) fun _ _ => ⟨rfl, rfl⟩

theorem framed_requireAssignable (span : Span) (t u : Ty) : Framed c (requireAssignable span t u) := by
  have haborted : Framed c isAborted := framed_of_restores (fun s => .refl s) fun _ _ => ⟨rfl, rfl⟩
  have hassignable : Framed c (assignable u t) := framed_of_restores (fun s => .refl s) fun _ _ => ⟨rfl, rfl⟩
  refine haborted.bind fun a => hassignable.bind fun b => ?_
  split
  · exact framed_pure _
  · exact (framed_report _ _).bind fun _ => framed_pure _

end Infer

open Infer (Framed)

theorem Expr.framed_run (c : BodyContext) (e : Expr) (x : Option Ty) (used : Bool) :
    Framed c (e.asChild.run x used) :=
  Infer.framed_of_restores (e.restores_infer c x used) (e.level c x used).shallow

theorem Expr.framed (c : BodyContext) (e : Expr) :
    (∀ x, Framed c (e.asChild.infer x)) ∧ Framed c e.asChild.discarded ∧
      (∀ t, Framed c (Infer.check e.asChild t)) ∧ Framed c (Infer.condition e.asChild) := by
  have hrun (x : Option Ty) (used : Bool) : Framed c (e.asChild.inferIn x used) :=
    (e.framed_run c x used).bind fun _ => Infer.framed_pure _
  refine ⟨fun x => hrun x true, hrun none false, fun t => ?_, ?_⟩
  · exact (hrun (some t) true).bind fun _ =>
      (Infer.framed_requireAssignable _ _ _).bind fun _ => Infer.framed_pure _
  · exact (e.framed_run c _ true).bind fun _ =>
      (Infer.framed_requireAssignable _ _ _).bind fun _ => Infer.framed_pure _

end TypeFlow
