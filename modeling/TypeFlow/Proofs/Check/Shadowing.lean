import TypeFlow.Proofs.Check.Jobs
import TypeFlow.Proofs.Check.WellFormed
import TypeFlow.Proofs.Flow.Paths

namespace TypeFlow

def Narrowing.DeclaredBy (o : Option Local) (p : Path) (n : Narrowing) : Prop :=
  p.fields = [] → ∃ loc, o = some loc ∧ n.declared = loc.ty

def Point.Hygienic (p : Point) : Prop :=
  ∀ e ∈ p.flow.top.entries, e.1.fields = [] →
    ∃ loc, p.scope.lookup e.1.root = some loc ∧ e.2.declared = loc.ty

theorem Point.Hygienic.rooted {p : Point} (h : p.Hygienic) :
    p.flow.top.Rooted Narrowing.DeclaredBy p.scope := h

namespace Step

variable {r : Registry} {p : Point} {a : Step} {as bs : List Step}

def replay (r : Registry) (p : Point) (as : List Step) : Point := as.foldl (fun p a => a.act r p) p

theorem replay_append : replay r p (as ++ bs) = replay r (replay r p as) bs := List.foldl_append

def OfBinding (p : Point) (x : String) (t : Ty) : Prop :=
  ∃ loc, p.scope.lookup x = some loc ∧
    (t = loc.ty ∨ ∃ n, p.flow.top.get ⟨x, []⟩ = some n ∧ n.declared = loc.ty ∧ n.ty = t)

def Orderly (r : Registry) : Point → List Step → Prop
  | p, [] => p.Hygienic
  | p, a :: as => p.Hygienic ∧ (∀ x t, a = .read x t → OfBinding p x t) ∧ Orderly r (a.act r p) as

theorem Orderly.before (h : Orderly r p as) : p.Hygienic := by
  cases as with
  | nil => exact h
  | cons a as => exact h.1

theorem Orderly.append (h : Orderly r p as) (k : Orderly r (replay r p as) bs) : Orderly r p (as ++ bs) := by
  induction as generalizing p with
  | nil => exact k
  | cons a as ih => exact ⟨h.1, h.2.1, ih h.2.2 k⟩

theorem Orderly.rest (h : Orderly r p (as ++ bs)) : Orderly r (replay r p as) bs := by
  induction as generalizing p with
  | nil => exact h
  | cons a as ih => exact ih h.2.2

end Step

namespace Infer

variable {c : BodyContext} {α β : Type} {x : Infer α} {f : α → Infer β} {s : BodyState}

structure Orderly (c : BodyContext) (x : Infer α) (s : BodyState) : Prop where
  point : (x.after c s).point = Step.replay c.registry s.point (x.steps c s)
  steps : Step.Orderly c.registry s.point (x.steps c s)

namespace Orderly

theorem before (h : Orderly c x s) : s.point.Hygienic := h.steps.before

theorem after (h : Orderly c x s) : (x.after c s).point.Hygienic := by
  have hsteps : Step.Orderly c.registry s.point (x.steps c s ++ []) := by
    rw [List.append_nil]
    exact h.steps
  rw [h.point]
  exact hsteps.rest

theorem bind (hx : Orderly c x s) (hf : Orderly c (f (x.value c s)) (x.after c s)) : Orderly c (x >>= f) s where
  point := by rw [after_bind, steps_bind, Step.replay_append, ← hx.point, hf.point]
  steps := by
    rw [steps_bind]
    exact hx.steps.append (hx.point ▸ hf.steps)

theorem still (hs : s.point.Hygienic) (hp : (x.after c s).point = s.point) (ha : x.steps c s = []) :
    Orderly c x s := by
  constructor
  · rw [ha]
    exact hp
  · rw [ha]
    exact hs

theorem pure {a : α} (hs : s.point.Hygienic) : Orderly c (Pure.pure a) s := still hs rfl rfl

theorem perform {a : Step} (hs : s.point.Hygienic) (ha : (a.act c.registry s.point).Hygienic)
    (hread : ∀ x t, a = .read x t → Step.OfBinding s.point x t) : Orderly c (perform a) s :=
  ⟨rfl, hs, hread, ha⟩

theorem popBranch (hs : s.point.Hygienic) (hpop : (Infer.popBranch.after c s).point.Hygienic) :
    Orderly c Infer.popBranch s :=
  .bind (.still hs rfl rfl) (.bind (.perform hs hpop nofun) (.pure hpop))

theorem inBranch {fs : List FlowFact} (hs : s.point.Hygienic)
    (hx : Orderly c x { s with flow := s.flow.push c.registry fs })
    (hpop : (Infer.popBranch.after c (x.after c { s with flow := s.flow.push c.registry fs })).point.Hygienic) :
    Orderly c (inBranch fs x) s :=
  .bind (.perform hs hx.before nofun) (.bind hx (.bind (.popBranch hx.after hpop) (.pure hpop)))

theorem inScope (hs : s.point.Hygienic) (hx : Orderly c x { s with scope := s.scope.child })
    (hleave : (leaveScope.after c (x.after c { s with scope := s.scope.child })).point.Hygienic) :
    Orderly c (inScope x) s :=
  .bind (.perform hs hx.before nofun) (.bind hx (.bind (.perform hx.after hleave nofun) (.pure hleave)))

theorem inLoop (hs : s.point.Hygienic) (hx : Orderly c x { s with loopDepth := s.loopDepth + 1 }) :
    Orderly c (inLoop x) s :=
  .bind (.still hs rfl rfl) (.bind hx (.bind (.still hx.after rfl rfl) (.pure hx.after)))

theorem visit {site : Site} {act : Infer Typed} (hact : Orderly c act s) : Orderly c (visit site act) s := by
  rw [visit_eq]
  refine .bind (.still hact.before rfl rfl) ?_
  split
  · exact .pure hact.before
  · refine .bind hact (.bind (.still hact.after rfl rfl) ?_)
    split
    · exact .pure hact.after
    · exact .bind (.still hact.after rfl rfl) (.pure hact.after)

end Orderly

end Infer

open Infer (Orderly)

variable {c : BodyContext}

def Account.hygienic (c : BodyContext) : Account c where
  good _ := True
  about _ := True
  views _ _ := True
  bound := c.registry.DeclaresPath fun _ => True
  reads _ _ _ := True
  fits σ l := l.Rooted Narrowing.DeclaredBy σ
  final := False
  typeOf _ := none
  reported _ := True
  stopped := True

def Child.Hygienic (c : BodyContext) (ch : Child) : Prop :=
  ch = ch.expr.asChild ∧ ∀ x used s, s.point.Hygienic →
    Orderly c (ch.run x used) s ∧ (Account.hygienic c).Facts s.scope ((ch.run x used).value c s).facts

theorem Child.Hygienic.confined {ch : Child} (h : ch.Hygienic c) : ch.Confined c := by
  rw [h.1]
  exact ch.expr.confined c

theorem not_plain (p : Path) : ¬ p.Plain fun _ => True := fun h => h.not_tested True.intro

def Theory.hygienic (c : BodyContext) : Theory c where
  toAccount := Account.hygienic c
  runs := Child.Hygienic c
  pattern _ := True
  laws := .trivial c
  source _ _ _ := True.intro
  settled := False.elim
  error _ := True.intro
  variadic _ _ _ := True.intro
  callee _ _ := True.intro
  field _ _ := True.intro
  wildcard := True.intro
  unseen _ := True.intro
  test _ _ := True.intro
  root := Registry.declaresPath_root
  through {_ _ p _ f _} _ _ _ h := absurd (h p f rfl) (not_plain p)
  declared _ := True.intro
  narrowed _ _ := True.intro
  member _ _ := True.intro
  lookup _ _ := True.intro
  entry _ _ := True.intro
  apply {σ l f} h k := by
    refine h.apply fun hp => ?_
    obtain ⟨loc, hloc, hty⟩ := k.bound.named hp
    exact ⟨loc, hloc, ((Narrowing.declared_refine _).trans (l.declared_view _ _)).trans hty.symm⟩
  merge h k := by
    refine h.merge k fun ha _ hmerge hp => ?_
    obtain ⟨loc, hloc, hty⟩ := ha hp
    exact ⟨loc, hloc, (Narrowing.declared_merge hmerge).trans hty⟩
  invalidate p h := h.invalidate p

namespace Plan

open Narrowing (DeclaredBy)

variable {α β : Type} {A : Prop} {g : Spot} {us : List Turn} {x : Infer α} {f : α → Infer β} {Q : α → Spot → Prop}
  {s : BodyState}

-- From a hygienic point in the scope of its spot, an action takes orderly steps to the spot that is planned.
def Tracks (c : BodyContext) (A : Prop) (g : Spot) (x : Infer α) (Q : α → Spot → Prop) : Prop :=
  A → ∀ s : BodyState, s.point.Hygienic → s.scope = g.scope →
    Orderly c x s ∧ ∃ k, k.own = g.own ∧ (x.after c s).scope = k.scope ∧ Q (x.value c s) k

theorem Tracks.bind {R : β → Spot → Prop} (hx : Tracks c A g x Q)
    (hf : ∀ a h, h.own = g.own → Tracks c (Q a h) h (f a) R) : Tracks c A g (x >>= f) R := by
  intro hA s hs hg
  obtain ⟨hx, k, ho, hk, hQ⟩ := hx hA s hs hg
  obtain ⟨hf, m, ho', hm, hR⟩ := hf _ k ho hQ _ hx.after hk
  exact ⟨hx.bind hf, m, ho'.trans ho, hm, hR⟩

theorem Tracks.of_still {Q : α → Prop} (h : A → ∀ s : BodyState, s.point.Hygienic → s.scope = g.scope →
    (x.after c s).point = s.point ∧ x.steps c s = [] ∧ Q (x.value c s)) : Tracks c A g x (g.Stays Q) := by
  intro hA s hs hg
  obtain ⟨hp, ha, hQ⟩ := h hA s hs hg
  exact ⟨.still hs hp ha, g, rfl, (congrArg Point.scope hp).trans hg, rfl, hQ⟩

theorem tracks_amend {a : Step} {f : Layer → Layer} (ha : a.Amends c.registry f)
    (hf : A → ∀ l : Layer, l.Rooted DeclaredBy g.scope → (f l).Rooted DeclaredBy g.scope) :
    Tracks c A g (Infer.perform a) (g.Stays fun _ => True) := by
  intro hA s hs hg
  have hlayer : (f s.flow.top).Rooted DeclaredBy s.scope := by
    rw [hg]
    exact hf hA _ (hg ▸ hs)
  have hscope : ((Infer.perform a).after c s).scope = g.scope := by
    rw [Infer.after_amend ha]
    exact hg
  refine ⟨.perform hs ?_ ?_, g, rfl, hscope, rfl, True.intro⟩
  · cases ha <;> exact hlayer
  · rintro x t rfl
    cases ha

theorem tracks_readLocal {x : String} {l : Local} (hl : A → g.scope.lookup x = some l) :
    Tracks c A g (Infer.readLocal x l) (g.Stays fun t =>
      ∃ m : Layer, m.Rooted DeclaredBy g.scope ∧ t = (m.narrowed ⟨x, []⟩).getD l.ty) := by
  intro hA s hs hg
  have hlookup : s.scope.lookup x = some l := hg ▸ hl hA
  have hreads : Step.OfBinding s.point x ((s.flow.top.narrowed ⟨x, []⟩).getD l.ty) := by
    refine ⟨l, hlookup, ?_⟩
    unfold Layer.narrowed
    cases hn : s.flow.top.get ⟨x, []⟩ with
    | none => exact .inl rfl
    | some n =>
      obtain ⟨loc, hloc, hty⟩ := hs.rooted.get hn rfl
      cases hlookup.symm.trans hloc
      exact .inr ⟨n, hn, hty, rfl⟩
  have hstep : Orderly c (Infer.perform (.read x ((s.flow.top.narrowed ⟨x, []⟩).getD l.ty))) s := by
    refine .perform hs hs ?_
    rintro y t heq
    cases heq
    exact hreads
  exact ⟨.bind (.still hs rfl rfl) (.bind hstep (.pure hs)), g, rfl, hg, rfl, s.flow.top, hg ▸ hs, rfl⟩

theorem tracks_joinArms (span : Span) (arms : List Ty) (x : Option Ty) :
    Tracks c A g (Infer.joinArms span arms x) (g.Stays fun t => c.joinArms arms x = .ok t ∨ t = .error ∧ True) := by
  refine .of_still fun _ s _ _ => ?_
  rcases Infer.run_joinArms c span arms x with ⟨t, ht, hrun⟩ | ⟨e, -, hrun⟩
  · obtain ⟨hvalue, hafter, hsteps⟩ := hrun s
    exact ⟨congrArg BodyState.point hafter, hsteps, .inl (hvalue ▸ ht)⟩
  · obtain ⟨hvalue, hafter, hsteps⟩ := hrun s
    exact ⟨(congrArg BodyState.point hafter).trans rfl, hsteps, .inr ⟨hvalue, True.intro⟩⟩

theorem tracks_bindLocal (x : String) (t : Ty) (m : Bool) : Tracks c A g (Infer.bindLocal x t m) fun _ h =>
    h = { g with scope := g.scope.bind x ⟨t, m⟩ } := by
  intro _ s hs hg
  have hclear : (s.flow.top.invalidate ⟨x, []⟩).Rooted DeclaredBy s.scope := hs.rooted.invalidate ⟨x, []⟩
  have hbound : (s.flow.top.invalidate ⟨x, []⟩).Rooted DeclaredBy (s.scope.bind x ⟨t, m⟩) :=
    hs.rooted.bind x ⟨t, m⟩
  exact ⟨.bind (.perform hs hclear nofun) (.perform hclear hbound nofun),
    { g with scope := g.scope.bind x ⟨t, m⟩ }, rfl, congrArg (·.bind x ⟨t, m⟩) hg, rfl⟩

theorem Tracks.inBranch {Q : α → Prop} {fs : List FlowFact} (hx : Tracks c A g x (g.Stays Q))
    (hf : A → ∀ f ∈ fs, (Account.hygienic c).Fact g.scope f)
    (hb : ∀ s : BodyState, (x.after c s).flow.below = s.flow.below) :
    Tracks c A g (Infer.inBranch fs x) (g.Stays fun r => Q r.1 ∧ r.2.Rooted DeclaredBy g.scope) := by
  intro hA s hs hg
  have hpush : ((s.flow.top).applyAll c.registry fs).Rooted DeclaredBy s.scope := by
    rw [hg]
    exact Theory.fits_applyAll (T := .hygienic c) (hg ▸ hs) (hf hA)
  obtain ⟨horderly, k, -, hk, rfl, hQ⟩ := hx hA { s with flow := s.flow.push c.registry fs } hpush hg
  have hbelow := hb { s with flow := s.flow.push c.registry fs }
  obtain ⟨hafter, hvalue⟩ := Infer.run_inBranch c fs x rfl hbelow
  refine ⟨.inBranch hs horderly ?_, k, rfl, ?_, ?_⟩
  · rw [Infer.after_popBranch c hbelow]
    show s.flow.top.Rooted DeclaredBy _
    rw [hk, ← hg]
    exact hs
  · rw [hafter]
    exact hk
  · rw [hvalue]
    refine ⟨rfl, hQ, ?_⟩
    rw [← hk]
    exact horderly.after

theorem Tracks.inScope {Q : α → Prop}
    (hx : Tracks c A { g with scope := g.scope.child } x fun a h => h.inst = g.inst ∧ Q a)
    (ho : ∀ s : BodyState, (x.after c s).scope.outer = s.scope.outer) :
    Tracks c A g (Infer.inScope x) (g.Stays Q) := by
  intro hA s hs hg
  obtain ⟨horderly, k, -, hk, -, hQ⟩ := hx hA { s with scope := s.scope.child } hs (congrArg Scope.child hg)
  have houter := ho { s with scope := s.scope.child }
  obtain ⟨hafter, hvalue⟩ := Infer.run_inScope c x rfl houter
  have hleave : (Infer.leftScope s.scope (x.after c { s with scope := s.scope.child })).point.Hygienic :=
    horderly.after.rooted.leave houter
  refine ⟨.inScope hs horderly ?_, g, rfl, ?_, rfl, hvalue ▸ hQ⟩
  · rw [← hafter] at hleave
    exact hleave
  · rw [hafter]
    exact hg

theorem Tracks.inLoop (hx : Tracks c A g x Q) : Tracks c A g (Infer.inLoop x) Q := by
  intro hA s hs hg
  obtain ⟨horderly, hrest⟩ := hx hA { s with loopDepth := s.loopDepth + 1 } hs hg
  exact ⟨.inLoop hs horderly, hrest⟩

theorem tracks_child {ch : Child} (hc : ch.Hygienic c) (y : Option Ty) (used : Bool) :
    Tracks c A g (ch.run y used) (g.Stays fun t =>
      (Account.hygienic c).Result g.scope ch.expr t ∧ (Account.hygienic c).told ch.expr t.ty) := by
  intro _ s hs hg
  obtain ⟨horderly, hfacts⟩ := hc.2 y used s hs
  refine ⟨horderly, g, rfl, (hc.confined y used s).2.trans hg, rfl, ⟨.inl True.intro, hg ▸ hfacts, ?_⟩, False.elim⟩
  exact ⟨False.elim, fun _ _ => .inr (.inr True.intro)⟩

-- By induction on the plan.
theorem tracks (h : Plan (Theory.hygienic c) A g us x Q) : Tracks c A g x Q := by
  have hw {α : Type} {A : Prop} {g : Spot} {us : List Turn} {x : Infer α} {Q : α → Spot → Prop}
      (h : Plan (Theory.hygienic c) A g us x Q) (s : BodyState) :
      BodyState.Writes c (g.own :: Turn.ids us) s (x.after c s) :=
    h.writes (fun _ hch => Child.Hygienic.confined hch) s
  induction h with
  | @pure _ _ g _ _ h => exact fun hA s hs hg => ⟨.pure hs, g, rfl, hg, h hA⟩
  | bind _ _ hx hf => exact hx.bind hf
  | mono _ _ _ hB hR hx =>
    intro hA s hs hg
    obtain ⟨hA', rfl⟩ := hB hA
    obtain ⟨hx, k, ho, hk, hQ⟩ := hx hA' s hs hg
    exact ⟨hx, k, ho, hk, hR _ k hA hQ⟩
  | read _ _ hf =>
    intro hA s hs hg
    obtain ⟨hf, hrest⟩ := hf hA s hs hg
    exact ⟨.bind (.still hs rfl rfl) hf, hrest⟩
  | look => exact .of_still fun _ s hs hg => ⟨rfl, rfl, hg, hg ▸ hs, fun _ => True.intro⟩
  | report => exact .of_still fun _ _ _ _ => ⟨rfl, rfl, rfl, True.intro⟩
  | amend ha hf => exact tracks_amend ha hf
  | readLocal hl => exact tracks_readLocal hl
  | @control _ g =>
    exact fun _ s hs hg => ⟨.perform hs hs nofun, g, rfl, hg, rfl, True.intro⟩
  | joinArms span arms x => exact tracks_joinArms span arms x
  | bindLocal x m => exact tracks_bindLocal x _ m
  | inBranch hf hplan hx => exact hx.inBranch hf fun s => (hw hplan s).below
  | inScope hplan hx => exact hx.inScope fun s => (hw hplan s).outer
  | inLoop _ hx => exact hx.inLoop
  | child used hc => exact tracks_child hc _ used
  | draft hc =>
    intro hA s hs hg
    obtain ⟨horderly, k, ho, hk, rfl, hQ, -⟩ := tracks_child (A := True) hc none true True.intro s hs hg
    exact ⟨horderly, k, ho, hk, rfl, hQ.ty⟩
  | note => exact .of_still fun _ _ _ _ => ⟨rfl, rfl, False.elim⟩
  | solve => exact .of_still fun _ s _ _ => ⟨rfl, rfl, s.nextVar, rfl⟩
  | @recordInst _ g _ i =>
    exact fun _ s hs hg => ⟨.still hs rfl rfl, { g with inst := some i }, rfl, hg, rfl⟩

end Plan

theorem Expr.hygienic (c : BodyContext) (e : Expr) : e.asChild.Hygienic c := by
  induction e using Expr.parts_induction with
  | h e ih =>
    refine ⟨rfl, fun x used s hs => ?_⟩
    cases hsite : e.site? with
    | none =>
      cases e
      case missing => exact ⟨.pure hs, nofun, nofun⟩
      all_goals cases hsite
    | some site =>
      have hruns (p : Expr) (hp : p ∈ e.required ∨ p ∈ e.parts ∧ p.isPresent = true) :
          (Theory.hygienic c).runs p.asChild := ih p (hp.elim Expr.mem_parts_of_mem_required And.left)
      obtain ⟨act, hinfer, hplan⟩ := plan_node (T := .hygienic c) (A := True) (g := ⟨site.id, s.scope, none⟩)
        hsite rfl hruns (fun _ _ => True.intro) (fun _ _ => True.intro) (fun _ _ => True.intro)
        (fun _ _ => .inl True.intro) used
      obtain ⟨hact, k, -, -, hleaves⟩ := hplan.tracks True.intro s hs rfl
      have hrun : e.asChild.run x used = Infer.visit site act := hinfer
      rw [hrun]
      refine ⟨hact.visit, ?_⟩
      cases ha : s.aborted with
      | true =>
        rw [(Infer.run_visit_of_aborted c site act ha).2]
        exact ⟨nofun, nofun⟩
      | false =>
        rw [(Infer.run_visit c site act ha rfl).2]
        split
        · exact hleaves.result.facts
        · exact hleaves.result.facts

theorem BodyJob.orderly_check (c : BodyContext) (n : Nat) (j : BodyJob) :
    Orderly c j.check { nextVar := n } := by
  have hplan : Plan (Theory.hygienic c) True ⟨0, {}, none⟩ [j.body.asChild.turn {}] j.check fun _ _ => True :=
    plan_check ⟨fun _ _ => True.intro, True.intro⟩ (j.body.hygienic _) id
  have hstart : Point.Hygienic {} := nofun
  exact (hplan.tracks True.intro { nextVar := n } hstart rfl).1

theorem BodyJob.hygienic_check (r : Registry) (policy : ErrorPolicy) (n : Nat) (ids : Ty → Nat) (j : BodyJob) :
    let steps := j.check.steps (j.context r policy ids) { nextVar := n }
    (j.run r policy n ids).point = Step.replay r {} steps ∧
      ∀ done rest, steps = done ++ rest →
        (Step.replay r {} done).Hygienic ∧
          ∀ x t later, rest = .read x t :: later → Step.OfBinding (Step.replay r {} done) x t := by
  intro steps
  have horderly := j.orderly_check (j.context r policy ids) n
  refine ⟨horderly.point, fun done rest hsplit => ?_⟩
  have hsteps : Step.Orderly r {} (done ++ rest) := hsplit ▸ horderly.steps
  have hrest := hsteps.rest
  refine ⟨hrest.before, ?_⟩
  rintro x t later rfl
  exact hrest.2.1 x t rfl

end TypeFlow
