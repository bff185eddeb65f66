import TypeFlow.Proofs.Infer.Tree

namespace TypeFlow

structure Footprint where
  writes : Path → Prop
  tests : Path → Prop
  binds : String → Prop
  -- Whether the loop around the check may be left by a `break`.
  leaves : Prop
  -- The layers that flow through the check.
  layers : Layer → Prop

namespace Footprint

def looped (F : Footprint) : Footprint := { F with leaves := True }

structure Allows (F : Footprint) (f : Facts) : Prop where
  whenTrue : ∀ g ∈ f.whenTrue, F.tests g.path
  whenFalse : ∀ g ∈ f.whenFalse, F.tests g.path

end Footprint

def Scope.Alike (σ τ : Scope) : Prop := ∀ x, σ.lookup x = τ.lookup x

structure BodyState.Similar (s t : BodyState) : Prop where
  scope : s.scope.Alike t.scope
  layer : s.flow.top = t.flow.top
  aborted : s.aborted = t.aborted

theorem Expr.constValue_congr (e : Expr) (r : Registry) {σ τ : Scope} (h : σ.Alike τ) :
    e.constValue r σ = e.constValue r τ := by
  induction e using Expr.parts_induction with
  | h e ih =>
    cases e
    case neg s e => simp only [Expr.constValue, ih e (List.mem_singleton_self e)]
    case ident s x => simp only [Expr.constValue, h x]
    all_goals rfl

namespace Infer

inductive Treads (c : BodyContext) : Footprint → {α : Type} → Infer α → (α → Prop) → Prop
  | pure {F : Footprint} {α : Type} {a : α} {Q : α → Prop} (h : Q a) : Treads c F (pure a) Q
  | bind {F : Footprint} {α β : Type} {x : Infer α} {f : α → Infer β} {Q : α → Prop} {R : β → Prop}
    (hx : Treads c F x Q) (hf : ∀ a, Q a → Treads c F (f a) R) : Treads c F (x >>= f) R
  | imp {F : Footprint} {α : Type} {x : Infer α} {Q R : α → Prop} (hx : Treads c F x Q)
    (h : ∀ a, Q a → R a) : Treads c F x R
  | context {F : Footprint} : Treads c F (read : Infer BodyContext) (· = c)
  | look {F : Footprint} {α : Type} {f : BodyState → α} {Q : α → Prop}
    (hf : ∀ s t : BodyState, s.Similar t → f s = f t) (hQ : ∀ s, F.layers s.flow.top → Q (f s)) :
    Treads c F (return f (← get)) Q
  | report {F : Footprint} (span : Span) (cause : Cause) : Treads c F (report span cause) (· = .error)
  | loopControl {F : Footprint} {k : LoopControl} (span : Span) (h : k = .leave → F.leaves) :
    Treads c F (loopControl span k) fun _ => True
  | store {F : Footprint} (i : Nat) (t : Ty) : Treads c F (store i t) fun _ => True
  | recordInst {F : Footprint} (i : Nat) (inst : Instantiation) :
    Treads c F (recordInst i inst) fun _ => True
  | takeVars {F : Footprint} (n : Nat) : Treads c F (takeVars n) fun _ => True
  | readLocal {F : Footprint} (x : String) (l : Local) : Treads c F (readLocal x l) fun _ => True
  | invalidate {F : Footprint} {p : Path} (h : F.writes p) : Treads c F (invalidate p) fun _ => True
  | overwrite {F : Footprint} {p : Path} (h : F.writes p) : Treads c F (overwrite p) fun _ => True
  | bindLocal {F : Footprint} {x : String} (t : Ty) (m : Bool) (h : F.binds x) :
    Treads c F (bindLocal x t m) fun _ => True
  | applyFacts {F : Footprint} {fs : List FlowFact} (h : ∀ f ∈ fs, F.tests f.path) :
    Treads c F (applyFacts fs) fun _ => True
  | joinBranches {F : Footprint} {os : List Outcome} (h : ∀ o ∈ os, F.layers o.layer) :
    Treads c F (joinBranches os) fun _ => True
  | inBranch {F : Footprint} {α : Type} {x : Infer α} {Q : α → Prop} {fs : List FlowFact}
    (h : ∀ f ∈ fs, F.tests f.path) (hx : Treads c F x Q) :
    Treads c F (inBranch fs x) fun r => Q r.1 ∧ F.layers r.2
  | inScope {F : Footprint} {α : Type} {x : Infer α} {Q : α → Prop} (hx : Treads c F x Q) :
    Treads c F (inScope x) Q
  | inLoop {F : Footprint} {α : Type} {x : Infer α} {Q : α → Prop} (hx : Treads c F.looped x Q) :
    Treads c F (inLoop x) Q

abbrev Inside (c : BodyContext) (F : Footprint) {α : Type} (x : Infer α) : Prop := Treads c F x fun _ => True

end Infer

def Child.Treads (c : BodyContext) (F : Footprint) (ch : Child) : Prop :=
  ∀ x used, Infer.Treads c F (ch.run x used) fun t => F.Allows t.facts

namespace Infer

variable {c : BodyContext} {F : Footprint} {α β : Type} {x y : Infer α} {f : α → Infer β}
  {Q : α → Prop} {R : β → Prop}

namespace Treads

theorem trivial (hx : Treads c F x Q) : Inside c F x := hx.imp fun _ _ => True.intro

theorem andThen (hx : Treads c F x Q) (hf : ∀ a, Treads c F (f a) R) : Treads c F (x >>= f) R :=
  hx.bind fun a _ => hf a

theorem map {f : α → β} (hx : Treads c F x Q) (h : ∀ a, Q a → R (f a)) : Treads c F (do return f (← x)) R :=
  hx.bind fun a ha => .pure (h a ha)

theorem discard (hx : Treads c F x Q) : Inside c F (discard x) := hx.map fun _ _ => True.intro

theorem done (a : α) : Inside c F (Pure.pure a) := .pure True.intro

theorem ite {p : Prop} [Decidable p] (hx : p → Treads c F x Q) (hy : ¬ p → Treads c F y Q) :
    Treads c F (if p then x else y) Q := by
  split
  · next h => exact hx h
  · next h => exact hy h

end Treads

theorem treads_registry : Treads c F registry (· = c.registry) := Treads.context.map fun _ h => h ▸ rfl

theorem treads_look {f : BodyState → α} (hf : ∀ s t : BodyState, s.Similar t → f s = f t) :
    Inside c F (return f (← get)) := .look hf fun _ _ => True.intro

theorem treads_isAborted : Inside c F isAborted := treads_look fun _ _ h => h.aborted

theorem treads_lookupLocal (x : String) : Inside c F (lookupLocal x) := treads_look fun _ _ h => h.scope x

theorem treads_narrowing (p : Path) : Inside c F (narrowing p) :=
  treads_look fun _ _ h => congrArg (Layer.get · p) h.layer

theorem treads_narrowed (p : Path) : Inside c F (narrowed p) :=
  treads_look fun _ _ h => congrArg (Layer.narrowed · p) h.layer

theorem treads_constValue (r : Registry) (e : Expr) : Inside c F (return e.constValue r (← get).scope) :=
  treads_look fun _ _ h => e.constValue_congr r h.scope

theorem treads_assignable (t u : Ty) : Inside c F (assignable t u) :=
  Treads.context.andThen fun _ => Treads.context.andThen fun _ => .done _

theorem treads_declaredFrom (t : Ty) (p : Path) (fs : List String) : Inside c F (declaredFrom t p fs) := by
  induction fs generalizing t p with
  | nil => exact .done _
  | cons f fs ih =>
    unfold declaredFrom
    refine (treads_narrowed p).andThen fun n => treads_registry.andThen fun r => ?_
    split
    · exact ih _ _
    · exact .done _

theorem treads_declaredType (p : Path) : Inside c F (declaredType p) := by
  refine (treads_lookupLocal p.root).andThen fun l => ?_
  split
  · exact treads_declaredFrom _ _ _
  · exact .done _

theorem treads_narrowable (path : Option Path) :
    Treads c F (narrowable path) fun o => ∀ q, o = some q → path = some q.1 := by
  unfold narrowable
  split
  · exact .pure nofun
  · next p =>
    refine (treads_declaredType p).map fun o _ q hq => ?_
    obtain ⟨t, -, rfl⟩ := Option.map_eq_some_iff.mp hq
    rfl

theorem treads_localPath (path : Option Path) : Treads c F (localPath path) fun o => ∀ p, o = some p → path = some p := by
  unfold localPath
  split
  · exact .pure nofun
  · next p =>
    refine (treads_lookupLocal p.root).map fun o _ q hq => ?_
    obtain ⟨l, -, rfl⟩ := Option.map_eq_some_iff.mp hq
    rfl

theorem treads_fault (span : Span) (cause : Cause) : Inside c F (discard (report span cause)) :=
  (Treads.report span cause).discard

theorem treads_resolveType (w : Written) (span : Span) : Inside c F (resolveType w span) := by
  refine Treads.context.andThen fun d => Treads.context.andThen fun d' => ?_
  split
  · exact .done _
  · exact (Treads.report span _).trivial

theorem treads_requireAssignable (span : Span) (t u : Ty) : Inside c F (requireAssignable span t u) := by
  refine treads_isAborted.andThen fun a => (treads_assignable u t).andThen fun b => ?_
  split
  · exact .done _
  · exact treads_fault _ _

theorem treads_requireMutable (p : Path) (span : Span) : Inside c F (requireMutable p span) := by
  refine (treads_lookupLocal p.root).andThen fun o => ?_
  split
  · split
    · exact .done _
    · exact treads_fault _ _
  · exact .done _

theorem treads_write {p : Path} (span : Span) (h : F.writes p) : Inside c F (write p span) :=
  (treads_requireMutable p span).andThen fun _ => .overwrite h

section Children

variable {ch : Child} {cs : List Child}

theorem treads_inferIn (h : ch.Treads c F) (x : Option Ty) (used : Bool) : Inside c F (ch.inferIn x used) :=
  (h x used).map fun _ _ => True.intro

theorem treads_infer (h : ch.Treads c F) (x : Option Ty) : Inside c F (ch.infer x) := treads_inferIn h x true

theorem treads_check (h : ch.Treads c F) (t : Ty) : Inside c F (check ch t) :=
  (treads_infer h _).andThen fun _ => (treads_requireAssignable _ _ _).andThen fun _ => .done _

theorem treads_condition (h : ch.Treads c F) : Treads c F (condition ch) F.Allows :=
  (h _ _).bind fun _ ht => (treads_requireAssignable _ _ _).andThen fun _ => .pure ht

theorem treads_inferAll (h : ∀ ch ∈ cs, ch.Treads c F) : Inside c F (inferAll cs) := by
  induction cs with
  | nil => exact .done _
  | cons ch cs ih =>
    obtain ⟨hch, hcs⟩ := List.forall_mem_cons.mp h
    exact (treads_infer hch none).discard.andThen fun _ => ih hcs

theorem treads_refused (h : ∀ ch ∈ cs, ch.Treads c F) (span : Span) (cause : Cause) :
    Inside c F (inferAll cs >>= fun _ => report span cause) :=
  (treads_inferAll h).andThen fun _ => (Treads.report span cause).trivial

end Children

theorem treads_visit (site : Site) {act : Infer Typed} (h : Treads c F act fun t => F.Allows t.facts) :
    Treads c F (visit site act) fun t => F.Allows t.facts := by
  have hnone : F.Allows {} := ⟨nofun, nofun⟩
  rw [visit_eq]
  refine treads_isAborted.andThen fun b => .ite (fun _ => .pure hnone) fun _ => ?_
  refine h.bind fun t ht => treads_isAborted.andThen fun b => .ite (fun _ => .pure ht) fun _ => ?_
  exact (Treads.store _ _).andThen fun _ => .pure ht

end Infer

end TypeFlow
