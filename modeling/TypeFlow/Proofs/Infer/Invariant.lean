import TypeFlow.Proofs.Infer.Rules.Values

namespace TypeFlow

structure BodyInvariant (c : BodyContext) where
  good : Ty → Prop
  about : Path → Prop
  written : Written → Prop := fun _ => True
  fits : Layer → Prop
  holds : BodyState → Prop
  laws : TypeLaws c good written
  good_error : good .error
  report : ∀ {s} (es b), holds s → holds { s with errors := es, aborted := b }
  store : ∀ {s t} (id), holds s → good t → holds { s with types := (id, t) :: s.types }
  recordInst : ∀ {s} {i : Instantiation} (id), holds s → (∀ t ∈ i.typeArgs, good t) →
    holds { s with insts := (id, i) :: s.insts }
  takeVars : ∀ {s} (n), holds s → holds { s with nextVar := n }
  loopDepth : ∀ {s} (n), holds s → holds { s with loopDepth := n }
  entry : ∀ {s p n}, holds s → s.flow.top.get p = some n → good n.ty
  top : ∀ {s}, holds s → fits s.flow.top
  setTop : ∀ {s l}, holds s → fits l → holds { s with flow := ⟨l, s.flow.below⟩ }
  push : ∀ {s l}, holds s → fits l → holds { s with flow := ⟨l, s.flow.top :: s.flow.below⟩ }
  pop : ∀ {s t}, holds s → holds t → holds { t with flow := s.flow }
  apply : ∀ {l f}, fits l → about f.path → good f.declared →
    (∀ t, f.fact = .is t ∨ f.fact = .isNot t → good t) → fits (l.apply c.registry f)
  merge : ∀ {l m}, fits l → fits m → fits (l.merge c.registry m)
  invalidate : ∀ {l} (p), fits l → fits (l.invalidate p)
  lookup : ∀ {s x l}, holds s → s.scope.lookup x = some l → good l.ty
  bind : ∀ {s t} (x m), holds s → good t → holds { s with scope := s.scope.bind x ⟨t, m⟩ }
  enter : ∀ {s}, holds s → holds { s with scope := s.scope.child }
  leave : ∀ {s t}, holds s → holds t → holds { t with scope := s.scope }

namespace BodyInvariant

variable {c : BodyContext} (V : BodyInvariant c) {α β : Type}

structure GoodFact (f : FlowFact) : Prop where
  about : V.about f.path
  declared : V.good f.declared
  fact : ∀ t, f.fact = .is t ∨ f.fact = .isNot t → V.good t

structure GoodFacts (f : Facts) : Prop where
  whenTrue : ∀ g ∈ f.whenTrue, V.GoodFact g
  whenFalse : ∀ g ∈ f.whenFalse, V.GoodFact g

structure GoodTyped (t : Typed) : Prop where
  ty : V.good t.ty
  facts : V.GoodFacts t.facts

def Keeps (R : BodyState → BodyState → Prop) (Q : α → Prop) (x : Infer α) : Prop :=
  ∀ s, V.holds s → V.holds (x.after c s) ∧ R s (x.after c s) ∧ Q (x.value c s)

namespace Keeps

open BodyState (Continues Restores)

variable {V} {R : BodyState → BodyState → Prop} {Q : α → Prop} {P : β → Prop} {x : Infer α}
  {f : α → Infer β}

theorem pure [Std.Refl R] {a : α} (h : Q a) : V.Keeps R Q (Pure.pure a) :=
  fun s hs => ⟨hs, Std.Refl.refl s, h⟩

theorem bind [Trans R R R] (hx : V.Keeps R Q x) (hf : ∀ a, Q a → V.Keeps R P (f a)) :
    V.Keeps R P (x >>= f) := by
  intro s hs
  obtain ⟨hx1, hx2, hx3⟩ := hx s hs
  obtain ⟨hf1, hf2, hf3⟩ := hf _ hx3 _ hx1
  exact ⟨hf1, Trans.trans hx2 hf2, hf3⟩

theorem imp {Q' : α → Prop} (hx : V.Keeps R Q x) (h : ∀ a, Q a → Q' a) : V.Keeps R Q' x := by
  intro s hs
  obtain ⟨hx1, hx2, hx3⟩ := hx s hs
  exact ⟨hx1, hx2, h _ hx3⟩

theorem trivial (hx : V.Keeps R Q x) : V.Keeps R (fun _ => True) x := hx.imp fun _ _ => True.intro

theorem continues (hx : V.Keeps Restores Q x) : V.Keeps Continues Q x := by
  intro s hs
  obtain ⟨hx1, hx2, hx3⟩ := hx s hs
  exact ⟨hx1, hx2.toContinues, hx3⟩

end Keeps

def Suggests (x : Option Ty) : Prop := ∀ t, x = some t → V.good t

def Checks (ch : Child) : Prop :=
  ∀ x used, V.Suggests x → V.Keeps BodyState.Restores V.GoodTyped (ch.run x used)

theorem suggests_none : V.Suggests none := nofun

theorem goodFacts_empty : V.GoodFacts {} := ⟨nofun, nofun⟩

def Fits (σ : Scope) (l : Layer) : Prop := ∃ s, V.holds s ∧ s.scope = σ ∧ s.flow.top = l

variable {V}

theorem fits_top {s : BodyState} {σ : Scope} (hs : V.holds s) (hσ : s.scope = σ) :
    V.Fits σ s.flow.top := ⟨s, hs, hσ, rfl⟩

theorem Fits.fits {σ : Scope} {l : Layer} (h : V.Fits σ l) : V.fits l := by
  obtain ⟨s, hs, -, rfl⟩ := h
  exact V.top hs

theorem Fits.change {σ : Scope} {l m : Layer} (h : V.Fits σ l) (hm : V.fits m) : V.Fits σ m := by
  obtain ⟨s, hs, hσ, -⟩ := h
  exact ⟨_, V.setTop hs hm, hσ, rfl⟩

variable (V)

def theory : Theory c where
  good := V.good
  about := V.about
  views _ _ := True
  bound _ _ _ := True
  reads _ _ _ := True
  fits := V.Fits
  final := False
  typeOf _ := none
  reported _ := True
  stopped := True
  runs := V.Checks
  pattern _ := True
  written := V.written
  laws := V.laws.toTypeClosure
  source _ _ := V.laws.untyped _
  settled := False.elim
  error _ := V.good_error
  variadic _ _ _ := V.good_error
  callee _ _ := True.intro
  field _ _ := True.intro
  wildcard := True.intro
  unseen _ := True.intro
  test _ _ := True.intro
  root _ := True.intro
  through _ _ _ := True.intro
  declared _ := True.intro
  narrowed _ _ := True.intro
  member _ _ := True.intro
  lookup h k := by
    obtain ⟨s, hs, rfl, -⟩ := h
    exact V.lookup hs k
  entry h k := by
    obtain ⟨s, hs, -, rfl⟩ := h
    exact V.entry hs k
  apply h hf := h.change (V.apply h.fits hf.about hf.declared hf.tested)
  merge h k := h.change (V.merge h.fits k.fits)
  invalidate p h := h.change (V.invalidate p h.fits)

variable {V}

theorem GoodFacts.facts {f : Facts} (h : V.GoodFacts f) (σ : Scope) : V.theory.Facts σ f :=
  ⟨fun g hg => ⟨(h.whenTrue g hg).about, (h.whenTrue g hg).declared, (h.whenTrue g hg).fact,
      True.intro, False.elim⟩,
    fun g hg => ⟨(h.whenFalse g hg).about, (h.whenFalse g hg).declared, (h.whenFalse g hg).fact,
      True.intro, False.elim⟩⟩

theorem goodFacts_of_facts {f : Facts} {σ : Scope} (h : V.theory.Facts σ f) : V.GoodFacts f :=
  ⟨fun g hg => ⟨(h.whenTrue g hg).about, (h.whenTrue g hg).declared, (h.whenTrue g hg).tested⟩,
    fun g hg => ⟨(h.whenFalse g hg).about, (h.whenFalse g hg).declared, (h.whenFalse g hg).tested⟩⟩

theorem fits_leftScope (σ : Scope) {t : BodyState} (h : V.fits t.flow.top) :
    V.fits (Infer.leftScope σ t).flow.top := by
  unfold Infer.leftScope
  generalize t.flow = f at h
  induction t.scope.ownNames generalizing f with
  | nil => exact h
  | cons x xs ih => exact ih (f.invalidate ⟨x, []⟩) (V.invalidate _ h)

end BodyInvariant

open BodyInvariant
open BodyState (Continues Restores)

variable {c : BodyContext} {V : BodyInvariant c} {α : Type} {x : Infer α}

theorem Plan.keeps {A : Prop} {g : Spot} {us : List Turn} {Q : α → Spot → Prop}
    (h : Plan V.theory A g us x Q) (hA : A) {s : BodyState} (hs : V.holds s) (hg : s.scope = g.scope) :
    ∃ k : Spot, k.own = g.own ∧ (x.after c s).scope = k.scope ∧ V.holds (x.after c s) ∧
      s.Continues (x.after c s) ∧ Q (x.value c s) k := by
  induction h generalizing s with
  | @pure _ _ g _ _ h => exact ⟨g, rfl, hg, hs, .refl s, h hA⟩
  | bind _ _ hx hf =>
    obtain ⟨k, ho, hk, hx₁, hx₂, hx₃⟩ := hx hA hs hg
    obtain ⟨m, ho', hm, hf₁, hf₂, hf₃⟩ := hf _ k ho hx₃ hx₁ hk
    exact ⟨m, ho'.trans ho, hm, hf₁, hx₂.trans hf₂, hf₃⟩
  | mono _ _ _ hB hR hx =>
    obtain ⟨hA', rfl⟩ := hB hA
    obtain ⟨k, ho, hk, hx₁, hx₂, hx₃⟩ := hx hA' hs hg
    exact ⟨k, ho, hk, hx₁, hx₂, hR _ k hA hx₃⟩
  | read _ _ hf => exact hf hA hs hg
  | @look _ g => exact ⟨g, rfl, hg, hs, .refl s, rfl, hg, fits_top hs hg, fun _ => True.intro⟩
  | @report _ g span cause =>
    refine ⟨g, rfl, hg, V.report _ _ hs, ⟨rfl, rfl, rfl, List.prefix_append _ _, ?_⟩, rfl, rfl, True.intro⟩
    exact fun h => Bool.or_eq_true_iff.mpr (.inl h)
  | @amend _ g a f ha hf =>
    have hfits := (hf hA _ (fits_top hs hg)).fits
    rw [Infer.after_amend ha]
    exact ⟨g, rfl, hg, V.setTop hs hfits, ⟨rfl, rfl, rfl, List.prefix_refl _, id⟩, rfl, True.intro⟩
  | @readLocal _ g => exact ⟨g, rfl, hg, hs, .refl s, rfl, _, fits_top hs hg, rfl⟩
  | @control _ g => exact ⟨g, rfl, hg, hs, .refl s, rfl, True.intro⟩
  | @joinArms _ g span arms x =>
    rcases Infer.run_joinArms c span arms x with ⟨t, ht, hrun⟩ | ⟨e, -, hrun⟩
    · obtain ⟨hvalue, hafter, -⟩ := hrun s
      rw [hvalue, hafter]
      exact ⟨g, rfl, hg, hs, .refl s, rfl, .inl ht⟩
    · obtain ⟨hvalue, hafter, -⟩ := hrun s
      rw [hvalue, hafter]
      refine ⟨g, rfl, hg, V.report _ _ hs, ⟨rfl, rfl, rfl, List.prefix_append _ _, ?_⟩, rfl, .inr ⟨rfl, True.intro⟩⟩
      exact fun h => Bool.or_eq_true_iff.mpr (.inl h)
  | @bindLocal _ g t x m ht =>
    have hflow := V.setTop hs (V.invalidate ⟨x, []⟩ (V.top hs))
    exact ⟨{ g with scope := g.scope.bind x ⟨t, m⟩ }, rfl, congrArg (·.bind x ⟨t, m⟩) hg,
      V.bind x m hflow (ht hA), ⟨rfl, rfl, rfl, List.prefix_refl _, id⟩, rfl⟩
  | @inBranch _ _ g _ x _ fs hf _ hx =>
    have hfits := Theory.fits_applyAll (fits_top hs hg) (hf hA)
    obtain ⟨k, -, hk, hx₁, hx₂, rfl, hx₃⟩ := hx hA (V.push hs hfits.fits) hg
    obtain ⟨hafter, hvalue⟩ := Infer.run_inBranch c fs x rfl hx₂.below
    rw [hafter, hvalue]
    exact ⟨k, rfl, hk, V.pop hs hx₁, ⟨hx₂.outer, rfl, hx₂.loopDepth, hx₂.errors, hx₂.aborted⟩, rfl, hx₃,
      fits_top hx₁ hk⟩
  | @inScope _ _ g _ x _ _ hx =>
    obtain ⟨k, -, -, hx₁, hx₂, -, hx₃⟩ := hx hA (V.enter hs) (congrArg Scope.child hg)
    obtain ⟨hafter, hvalue⟩ := Infer.run_inScope c x rfl hx₂.outer
    have hbelow := Infer.below_leftScope s.scope (x.after c { s with scope := s.scope.child })
    have hflow := V.setTop hx₁ (fits_leftScope s.scope (V.top hx₁))
    rw [← hbelow] at hflow
    rw [hafter, hvalue]
    exact ⟨g, rfl, hg, V.leave hs hflow,
      ⟨rfl, hbelow.trans hx₂.below, hx₂.loopDepth, hx₂.errors, hx₂.aborted⟩, rfl, hx₃⟩
  | inLoop _ hx =>
    obtain ⟨k, ho, hk, hx₁, hx₂, hx₃⟩ := hx hA (V.loopDepth (s.loopDepth + 1) hs) hg
    have hdepth := congrArg (· - 1) hx₂.loopDepth
    exact ⟨k, ho, hk, V.loopDepth _ hx₁, ⟨hx₂.outer, hx₂.below, hdepth, hx₂.errors, hx₂.aborted⟩, hx₃⟩
  | @child _ g _ _ _ used hc hx _ =>
    obtain ⟨hc₁, hc₂, hc₃⟩ := hc _ used (fun t ht => V.laws.loose_iff.mp (hx hA t ht)) s hs
    exact ⟨g, rfl, hc₂.scope.trans hg, hc₁, hc₂.toContinues, rfl,
      ⟨.inl hc₃.ty, hc₃.facts.facts _, False.elim, fun _ _ => .inr (.inr True.intro)⟩, False.elim⟩
  | @draft _ g _ _ hc _ =>
    obtain ⟨hc₁, hc₂, hc₃⟩ := hc none true (suggests_none V) s hs
    exact ⟨g, rfl, hc₂.scope.trans hg, hc₁, hc₂.toContinues, rfl, .inl hc₃.ty⟩
  | @note _ g _ _ _ _ ht =>
    exact ⟨g, rfl, hg, V.store _ hs (ht hA), ⟨rfl, rfl, rfl, List.prefix_refl _, id⟩, rfl, False.elim⟩
  | @solve _ g =>
    exact ⟨g, rfl, hg, V.takeVars _ hs, ⟨rfl, rfl, rfl, List.prefix_refl _, id⟩, rfl, s.nextVar, rfl⟩
  | @recordInst _ g _ i _ hi =>
    exact ⟨{ g with inst := some i }, rfl, hg, V.recordInst _ hs (hi hA), ⟨rfl, rfl, rfl, List.prefix_refl _, id⟩, rfl⟩

theorem Rule.keeps {us : Spot → List Turn} {Q : Spot → α → Prop}
    (h : ∀ g, Rule V.theory True g (us g) x (Q g)) : V.Keeps Restores (fun a => ∃ g, Q g a) x := by
  intro s hs
  obtain ⟨k, -, hk, h₁, h₂, rfl, h₃⟩ := Plan.keeps (h ⟨0, s.scope, none⟩) True.intro hs rfl
  exact ⟨h₁, ⟨h₂, hk⟩, _, h₃⟩

theorem BodyInvariant.Checks.condition {ch : Child} (h : V.Checks ch) :
    V.Keeps Restores V.GoodFacts (Infer.condition ch) :=
  (Rule.keeps fun _ => rule_condition h).imp fun _ ⟨_, hf⟩ => goodFacts_of_facts hf

end TypeFlow
