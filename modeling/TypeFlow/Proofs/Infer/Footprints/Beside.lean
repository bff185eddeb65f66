import TypeFlow.Proofs.Flow.Rooted
import TypeFlow.Proofs.Infer.Footprints.Runs
import TypeFlow.Proofs.Infer.Frames

namespace TypeFlow

structure BodyState.Beside (hidden : List Nat) (s t : BodyState) : Prop extends Similar s t where
  loopDepth : s.loopDepth = t.loopDepth
  nextVar : s.nextVar = t.nextVar
  errors : s.errors = t.errors
  insts : s.insts = t.insts
  types : ∀ i, i ∉ hidden → s.typeOf i = t.typeOf i

namespace Scope

variable {σ τ : Scope}

theorem Alike.bind (h : σ.Alike τ) (x : String) (l : Local) : (σ.bind x l).Alike (τ.bind x l) := by
  intro y
  by_cases hy : y = x
  · rw [hy, lookup_bind_self, lookup_bind_self]
  · rw [lookup_bind_of_ne σ l hy, lookup_bind_of_ne τ l hy]
    exact h y

end Scope

namespace BodyState.Beside

variable {hidden : List Nat} {s t : BodyState}

theorem relayer (h : s.Beside hidden t) {f g : FlowStack} (hfg : f.top = g.top) :
    BodyState.Beside hidden { s with flow := f } { t with flow := g } :=
  { h with layer := hfg }

theorem rescope (h : s.Beside hidden t) {σ τ : Scope} (hστ : σ.Alike τ) :
    BodyState.Beside hidden { s with scope := σ } { t with scope := τ } :=
  { h with scope := hστ }

theorem store (h : s.Beside hidden t) (i : Nat) (ty : Ty) :
    BodyState.Beside hidden { s with types := (i, ty) :: s.types } { t with types := (i, ty) :: t.types } := by
  refine { h with types := fun j hj => ?_ }
  have hj := h.types j hj
  simp only [typeOf, List.lookup_cons] at hj ⊢
  rw [hj]

theorem hide (h : s.Beside hidden t) {i : Nat} (hi : i ∈ hidden) (ty : Ty) :
    BodyState.Beside hidden { s with types := (i, ty) :: s.types } t :=
  { h with types := fun j hj => (typeOf_store s ty fun heq : j = i => hj (heq ▸ hi)).trans (h.types j hj) }

end BodyState.Beside

namespace Infer

open BodyState (Beside)

variable {c : BodyContext} {F : Footprint} {hidden : List Nat} {α β : Type} {x : Infer α} {Q : α → Prop}

def Abreast (c : BodyContext) (F : Footprint) (hidden : List Nat) (x : Infer α) : Prop :=
  ∀ s t : BodyState, F.layers s.flow.top → s.Beside hidden t →
    x.value c s = x.value c t ∧ (x.after c s).Beside hidden (x.after c t) ∧
      (s.scope.own = t.scope.own → (x.after c s).scope.own = (x.after c t).scope.own)

theorem Abreast.bind {f : α → Infer β} (hx : Abreast c F hidden x) (hr : Runs c F x Q)
    (hf : ∀ a, Q a → Abreast c F hidden (f a)) : Abreast c F hidden (x >>= f) := by
  intro s t hs hst
  obtain ⟨hvalue, hafter, hown⟩ := hx s t hs hst
  obtain ⟨hmoves, -, hQ⟩ := hr s hs
  obtain ⟨hvalue', hafter', hown'⟩ := hf _ hQ _ _ hmoves.layer hafter
  rw [value_bind, value_bind, after_bind, after_bind, ← hvalue]
  exact ⟨hvalue', hafter', fun h => hown' (hown h)⟩

theorem Abreast.inBranch (hF : F.Lawful c.registry) {fs : List FlowFact} (h : ∀ f ∈ fs, F.tests f.path)
    (hx : Abreast c F hidden x) (hr : Runs c F x Q) : Abreast c F hidden (inBranch fs x) := by
  intro s t hs hst
  have ht : F.layers t.flow.top := hst.layer ▸ hs
  have hpush : (s.flow.push c.registry fs).top = (t.flow.push c.registry fs).top := by
    show s.flow.top.applyAll c.registry fs = t.flow.top.applyAll c.registry fs
    rw [hst.layer]
  obtain ⟨hvalue, hafter, hown⟩ := hx _ _ (hF.applyAll hs h) (hst.relayer hpush)
  have hbelow (u : BodyState) (hu : F.layers u.flow.top) :=
    (hr { u with flow := u.flow.push c.registry fs } (hF.applyAll hu h)).1.below
  obtain ⟨hrun, hout⟩ := run_inBranch c fs x (s := s) rfl (hbelow s hs)
  obtain ⟨hrun', hout'⟩ := run_inBranch c fs x (s := t) rfl (hbelow t ht)
  rw [hrun, hout, hrun', hout', hvalue, hafter.layer]
  exact ⟨rfl, hafter.relayer hst.layer, hown⟩

theorem foldl_invalidate_top {f g : FlowStack} (h : f.top = g.top) (xs : List String) :
    (xs.foldl (fun f x => f.invalidate ⟨x, []⟩) f).top = (xs.foldl (fun f x => f.invalidate ⟨x, []⟩) g).top := by
  induction xs generalizing f g with
  | nil => exact h
  | cons x xs ih => exact ih (congrArg (Layer.invalidate · ⟨x, []⟩) h)

theorem Abreast.inScope (hx : Abreast c F hidden x) (hr : Runs c F x Q) : Abreast c F hidden (inScope x) := by
  intro s t hs hst
  have ht : F.layers t.flow.top := hst.layer ▸ hs
  obtain ⟨hvalue, hafter, hown⟩ :=
    hx { s with scope := s.scope.child } { t with scope := t.scope.child } hs (hst.rescope hst.scope)
  have houter (u : BodyState) (hu : F.layers u.flow.top) := (hr { u with scope := u.scope.child } hu).1.outer
  obtain ⟨hrun, hout⟩ := run_inScope c x (s := s) rfl (houter s hs)
  obtain ⟨hrun', hout'⟩ := run_inScope c x (s := t) rfl (houter t ht)
  rw [hrun, hout, hrun', hout']
  refine ⟨hvalue, (hafter.rescope hst.scope).relayer ?_, id⟩
  rw [Scope.ownNames, Scope.ownNames, hown rfl]
  exact foldl_invalidate_top hafter.layer _

theorem Abreast.inLoop (hx : Abreast c F.looped hidden x) : Abreast c F hidden (inLoop x) := by
  intro s t hs hst
  obtain ⟨hvalue, hafter, hown⟩ := hx { s with loopDepth := s.loopDepth + 1 } { t with loopDepth := t.loopDepth + 1 }
    hs { hst with loopDepth := congrArg (· + 1) hst.loopDepth }
  exact ⟨hvalue, { hafter with loopDepth := congrArg (· - 1) hafter.loopDepth }, hown⟩

theorem abreast_report (span : Span) (cause : Cause) : Abreast c F hidden (report span cause) := by
  intro s t _ hst
  refine ⟨rfl, { hst with aborted := ?_, errors := ?_ }, id⟩
  · exact congrArg (· || c.policy == .abort) hst.aborted
  · exact congrArg (· ++ [CheckError.mk span cause]) hst.errors

theorem abreast_loopControl (span : Span) (k : LoopControl) : Abreast c F hidden (loopControl span k) := by
  intro s t hs hst
  obtain ⟨hafter, -, hvalue⟩ := run_loopControl c span k s
  obtain ⟨hafter', -, hvalue'⟩ := run_loopControl c span k t
  rw [hvalue, hvalue', hafter, hafter', hst.loopDepth]
  split
  · obtain ⟨-, h⟩ := abreast_report (F := F) span (.controlOutsideLoop k) s t hs hst
    exact ⟨rfl, h⟩
  · exact ⟨rfl, hst, id⟩

-- By induction on the steps that an action is made of.
theorem Treads.abreast (hF : F.Lawful c.registry) (h : Treads c F x Q) : Abreast c F hidden x := by
  induction h with
  | pure => exact fun s t _ hst => ⟨rfl, hst, id⟩
  | bind hx _ ihx ihf => exact (ihx hF).bind (hx.runs hF) fun a ha => ihf a ha hF
  | imp _ _ ih => exact ih hF
  | context => exact fun s t _ hst => ⟨rfl, hst, id⟩
  | look hf _ => exact fun s t _ hst => ⟨hf s t hst.toSimilar, hst, id⟩
  | report span cause => exact abreast_report span cause
  | loopControl span => exact abreast_loopControl span _
  | store i ty => exact fun s t _ hst => ⟨rfl, hst.store i ty, id⟩
  | recordInst i inst => exact fun s t _ hst => ⟨rfl, { hst with insts := congrArg ((i, inst) :: ·) hst.insts }, id⟩
  | takeVars n =>
    exact fun s t _ hst => ⟨hst.nextVar, { hst with nextVar := congrArg (· + n) hst.nextVar }, id⟩
  | readLocal x l =>
    exact fun s t _ hst => ⟨congrArg (fun m => (Layer.narrowed m ⟨x, []⟩).getD l.ty) hst.layer, hst, id⟩
  | @invalidate _ p | @overwrite _ p =>
    exact fun s t _ hst => ⟨rfl, hst.relayer (congrArg (Layer.invalidate · p) hst.layer), id⟩
  | @bindLocal _ y ty m =>
    refine fun s t _ hst => ⟨rfl, ?_, fun hown => ?_⟩
    · exact (hst.relayer (congrArg (Layer.invalidate · ⟨y, []⟩) hst.layer)).rescope (hst.scope.bind y ⟨ty, m⟩)
    · exact congrArg (fun own => (y, ⟨ty, m⟩) :: List.filter (fun e : String × Local => e.1 != y) own) hown
  | @applyFacts _ fs =>
    exact fun s t _ hst => ⟨rfl, hst.relayer (congrArg (Layer.applyAll c.registry · fs) hst.layer), id⟩
  | @joinBranches _ os =>
    exact fun s t _ hst => ⟨rfl, hst.relayer (congrArg (FlowStack.joined c.registry os).getD hst.layer), id⟩
  | inBranch h hx ih => exact (ih hF).inBranch hF h (hx.runs hF)
  | inScope hx ih => exact (ih hF).inScope (hx.runs hF)
  | inLoop _ ih => exact (ih hF.looped).inLoop

end Infer

end TypeFlow
