import TypeFlow.Proofs.Infer.Laws
import TypeFlow.Proofs.Infer.Run
import TypeFlow.Proofs.Syntax.Nodes

namespace TypeFlow

structure Account (c : BodyContext) where
  good : Ty → Prop
  about : Path → Prop
  -- How a local of the first type may be seen after conditions.
  views : Ty → Ty → Prop
  -- The types that a path is declared with, and those that it may be read with.
  bound : Scope → Path → Ty → Prop
  reads : Scope → Path → Ty → Prop
  fits : Scope → Layer → Prop
  -- Whether `typeOf` gives the types that are recorded in the end.
  final : Prop
  typeOf : Expr → Option Ty
  reported : Span → Prop
  stopped : Prop

-- One check of a child. A draft is repeated later in the same rule.
structure Turn where
  scope : Scope
  expr : Expr
  draft : Bool := false

structure Spot where
  own : Nat
  scope : Scope
  inst : Option Instantiation := none

namespace Account

variable {c : BodyContext} (T : Account c)

def fine (t : Ty) : Prop := t.Loose T.good

def Suggests (x : Option Ty) : Prop := ∀ t, x = some t → T.fine t

def told (e : Expr) (t : Ty) : Prop := T.final → T.typeOf e = some t

def failed : Prop := T.stopped ∨ ∃ span, T.reported span

structure Fact (σ : Scope) (f : FlowFact) : Prop where
  about : T.about f.path
  declared : T.good f.declared
  tested : ∀ t, f.fact = .is t ∨ f.fact = .isNot t → T.good t
  bound : T.bound σ f.path f.declared
  seen : T.final → f.path.fields = [] → ∀ t, f.fact = .is t → T.views f.declared t

structure Facts (σ : Scope) (f : TypeFlow.Facts) : Prop where
  whenTrue : ∀ g ∈ f.whenTrue, T.Fact σ g
  whenFalse : ∀ g ∈ f.whenFalse, T.Fact σ g

structure Sees (σ : Scope) (e : Expr) (t : Ty) : Prop where
  views : T.final → ∀ x l, e.path? = some ⟨x, []⟩ → σ.lookup x = some l → t = .error ∨ T.views l.ty t
  reads : ∀ p, e.path? = some p → t = .error ∨ σ.lookup p.root = none ∨ T.reads σ p t

structure Result (σ : Scope) (e : Expr) (t : Typed) : Prop where
  ty : T.fine t.ty
  facts : T.Facts σ t.facts
  sees : T.Sees σ e t.ty

structure Settled : Prop where
  running : ¬ T.stopped
  named : ∀ {σ x t}, T.bound σ ⟨x, []⟩ t → ∃ l, σ.lookup x = some l ∧ l.ty = t
  -- What is known of a field while nothing is known on the way to it agrees with its receiver.
  receiver : ∀ {σ l p f n t}, T.fits σ l → l.get (p.field f) = some n → T.reads σ p t →
    (∃ u, c.registry.fieldType t f = some u) ∨
      T.about (p.field f) ∧ ∃ q, p.startsWith q = true ∧ T.about q
  known : ∀ {σ l x loc n}, T.fits σ l → l.get ⟨x, []⟩ = some n → σ.lookup x = some loc →
    T.views loc.ty n.ty

end Account

structure Theory (c : BodyContext) extends Account c where
  runs : Child → Prop
  -- Types against which a site is solved.
  pattern : Ty → Prop
  -- Types that are written in the body.
  written : Written → Prop := fun _ => True
  -- Trees that a literal may be built up from.
  gathers : Expr → Prop := fun _ => True
  laws : TypeClosure c good written
  source : ∀ {e t}, gathers e → toAccount.told e t → t.isUntyped = true → good t
  settled : final → toAccount.Settled
  error : ∀ {span}, reported span → good .error
  variadic : ∀ {f sig}, c.registry.function f = some sig → sig.variadic = true → sig.params = [] →
    good .error
  callee : ∀ {f sig p}, c.registry.function f = some sig → p ∈ sig.params → pattern p.ty
  field : ∀ {d fs is e}, c.registry.kind? d = some (.struct fs is) → e ∈ fs → pattern e.2
  wildcard : pattern .error
  unseen : ∀ t, views t t
  test : ∀ {d t u}, views d t → c.registry.canHold t u = true → views d u
  root : ∀ {σ x loc}, σ.lookup x = some loc → bound σ ⟨x, []⟩ loc.ty
  through : ∀ {σ l p t f u}, fits σ l → bound σ p t →
    c.registry.fieldType ((l.narrowed p).getD t) f = some u → bound σ (p.field f) u
  declared : ∀ {σ p t}, bound σ p t → reads σ p t
  narrowed : ∀ {σ l p n}, fits σ l → l.get p = some n → reads σ p n.ty
  member : ∀ {σ p t f u}, reads σ p t → c.registry.fieldType t f = some u → reads σ (p.field f) u
  lookup : ∀ {σ l x loc}, fits σ l → σ.lookup x = some loc → good loc.ty
  entry : ∀ {σ l p n}, fits σ l → l.get p = some n → good n.ty
  apply : ∀ {σ l f}, fits σ l → toAccount.Fact σ f → fits σ (l.apply c.registry f)
  merge : ∀ {σ l m}, fits σ l → fits σ m → fits σ (l.merge c.registry m)
  invalidate : ∀ {σ l} (p), fits σ l → fits σ (l.invalidate p)

namespace Turn

def Apart (u v : Turn) : Prop :=
  u.expr.Apart v.expr ∨ u.draft = true ∧ v.expr.isUntypedLiteral = true

def Settled (us : List Turn) : Prop := us.Pairwise Apart

structure Covers (us vs : List Turn) : Prop where
  mem : ∀ u ∈ us, u ∈ vs ∨ u.draft = true ∧ ∃ v ∈ vs, v.expr = u.expr
  settled : Settled vs → Settled us
  rest : Settled vs → ∀ v ∈ vs, v ∈ us ∨ v.expr.isUntypedLiteral = true ∨
    ∀ u ∈ us, u.expr.Apart v.expr

end Turn

structure Sight where
  scope : Scope
  layer : Layer
  depth : Nat
  aborted : Bool

inductive Step.Amends (r : Registry) : Step → (Layer → Layer) → Prop
  | apply (fs : List FlowFact) : Amends r (.apply fs) (·.applyAll r fs)
  | join (os : List Outcome) : Amends r (.join os) ((FlowStack.joined r os).getD ·)
  | forget (p : Path) : Amends r (.forget p) (·.invalidate p)
  | write (p : Path) : Amends r (.write p) (·.invalidate p)

namespace Infer

def look : Infer Sight := return (fun s => ⟨s.scope, s.flow.top, s.loopDepth, s.aborted⟩) (← get)

theorem after_amend {c : BodyContext} {a : Step} {f : Layer → Layer} (h : a.Amends c.registry f) (s : BodyState) :
    (perform a).after c s = { s with flow := { s.flow with top := f s.flow.top } } := by
  cases h <;> rfl

def solve (gs : Generics) (eqs : List Equation) : Infer (Except SolveError Instantiation) := do
  let base ← takeVars gs.length
  return (← registry).solveInferred (← read).bounds gs base eqs

end Infer

def Spot.Stays {α : Type} (g : Spot) (Q : α → Prop) : α → Spot → Prop := fun a h => h = g ∧ Q a

inductive Plan {c : BodyContext} (T : Theory c) :
    {α : Type} → Prop → Spot → List Turn → Infer α → (α → Spot → Prop) → Prop
  | pure {α : Type} {A : Prop} {g : Spot} {a : α} {Q : α → Spot → Prop} (h : A → Q a g) :
    Plan T A g [] (pure a) Q
  | bind {α β : Type} {A : Prop} {g : Spot} {us vs : List Turn} {x : Infer α} {f : α → Infer β}
    {Q : α → Spot → Prop} {R : β → Spot → Prop} (hx : Plan T A g us x Q)
    (hf : ∀ a h, h.own = g.own → Plan T (Q a h) h vs (f a) R) : Plan T A g (us ++ vs) (x >>= f) R
  | mono {α : Type} {A B : Prop} {g h : Spot} {us vs : List Turn} {x : Infer α}
    {Q R : α → Spot → Prop} (hx : Plan T A g us x Q) (hv : Turn.Covers us vs) (ho : h.own = g.own)
    (hB : B → A ∧ h = g) (hR : ∀ a k, B → Q a k → R a k) : Plan T B h vs x R
  | read {α : Type} {A : Prop} {g : Spot} {us : List Turn} {f : BodyContext → Infer α}
    {Q : α → Spot → Prop} (hf : Plan T A g us (f c) Q)
    -- No rule asks for the policy, and none but that for arms for the ids of types.
    (hp : ∀ p ids, f { c with policy := p, ids } = f c := by intros; rfl) : Plan T A g us (read >>= f) Q
  | look {A : Prop} {g : Spot} :
    Plan T A g [] Infer.look (g.Stays fun v =>
      v.scope = g.scope ∧ T.fits g.scope v.layer ∧ (v.aborted = true → T.stopped))
  | report {A : Prop} {g : Spot} (span : Span) (cause : Cause) :
    Plan T A g [] (Infer.report span cause) (g.Stays fun t => t = .error ∧ T.reported span)
  | amend {A : Prop} {g : Spot} {a : Step} {f : Layer → Layer} (ha : a.Amends c.registry f)
    (hf : A → ∀ l, T.fits g.scope l → T.fits g.scope (f l)) :
    Plan T A g [] (Infer.perform a) (g.Stays fun _ => True)
  | readLocal {A : Prop} {g : Spot} {x : String} {l : Local} (hl : A → g.scope.lookup x = some l) :
    Plan T A g [] (Infer.readLocal x l) (g.Stays fun t =>
      ∃ m, T.fits g.scope m ∧ t = (m.narrowed ⟨x, []⟩).getD l.ty)
  | control {A : Prop} {g : Spot} (k : LoopControl) (depth : Nat) :
    Plan T A g [] (Infer.perform (.control k depth)) (g.Stays fun _ => True)
  | joinArms {A : Prop} {g : Spot} (span : Span) (arms : List Ty) (x : Option Ty) :
    Plan T A g [] (Infer.joinArms span arms x) (g.Stays fun t =>
      c.joinArms arms x = .ok t ∨ t = .error ∧ T.reported span)
  | bindLocal {A : Prop} {g : Spot} {t : Ty} (x : String) (m : Bool) (ht : A → T.good t) :
    Plan T A g [] (Infer.bindLocal x t m) fun _ h => h = { g with scope := g.scope.bind x ⟨t, m⟩ }
  | inBranch {α : Type} {A : Prop} {g : Spot} {us : List Turn} {x : Infer α} {Q : α → Prop}
    {fs : List FlowFact} (hf : A → ∀ f ∈ fs, T.Fact g.scope f) (hx : Plan T A g us x (g.Stays Q)) :
    Plan T A g us (Infer.inBranch fs x) (g.Stays fun r => Q r.1 ∧ T.fits g.scope r.2)
  | inScope {α : Type} {A : Prop} {g : Spot} {us : List Turn} {x : Infer α} {Q : α → Prop}
    (hx : Plan T A { g with scope := g.scope.child } us x fun a h => h.inst = g.inst ∧ Q a) :
    Plan T A g us (Infer.inScope x) (g.Stays Q)
  | inLoop {α : Type} {A : Prop} {g : Spot} {us : List Turn} {x : Infer α} {Q : α → Prop}
    (hx : Plan T A g us x (g.Stays Q)) : Plan T A g us (Infer.inLoop x) (g.Stays Q)
  | child {A : Prop} {g : Spot} {ch : Child} {x : Option Ty} {σ : Scope} (used : Bool)
    (hc : T.runs ch) (hx : A → T.Suggests x) (hσ : A → T.final → g.scope = σ) :
    Plan T A g [⟨σ, ch.expr, false⟩] (ch.run x used)
      (g.Stays fun t => T.Result g.scope ch.expr t ∧ T.told ch.expr t.ty)
  | draft {A : Prop} {g : Spot} {ch : Child} {σ : Scope} (hc : T.runs ch)
    (hl : ch.expr.isUntypedLiteral = true) :
    Plan T A g [⟨σ, ch.expr, true⟩] (ch.run none true) (g.Stays fun t => T.fine t.ty)
  | note {A : Prop} {g : Spot} {s : Site} {n : Int64} {t : Ty} {σ : Scope} (ht : A → T.good t) :
    Plan T A g [⟨σ, .int s n, false⟩] (Infer.store s.id t) (g.Stays fun _ => T.told (.int s n) t)
  | solve {A : Prop} {g : Spot} {gs : Generics} {eqs : List Equation}
    (hp : ∀ q ∈ eqs, T.pattern q.pattern) :
    Plan T A g [] (Infer.solve gs eqs) (g.Stays fun r =>
      ∃ base, r = c.registry.solveInferred c.bounds gs base eqs)
  | recordInst {A : Prop} {g : Spot} {id : Nat} {i : Instantiation} (ho : id = g.own)
    (hi : A → ∀ t ∈ i.typeArgs, T.good t) :
    Plan T A g [] (Infer.recordInst id i) fun _ h => h = { g with inst := some i }

namespace Turn

variable {us vs ws : List Turn}

theorem Covers.refl (us : List Turn) : Covers us us := ⟨fun _ h => .inl h, id, fun _ _ h => .inl h⟩

theorem covers_nil (vs : List Turn) : Covers [] vs := ⟨nofun, fun _ => .nil, fun _ _ _ => .inr (.inr nofun)⟩

def Plain (us : List Turn) : Prop := ∀ u ∈ us, u.draft = false

theorem Settled.apart (h : Settled us) (hp : Plain us) :
    us.Pairwise fun u v => u.expr.Apart v.expr := by
  refine List.Pairwise.imp_of_mem (fun {u v} hu _ huv => ?_) h
  rcases huv with huv | ⟨hd, -⟩
  · exact huv
  · simp [hp u hu] at hd

theorem settled_of_apart (h : us.Pairwise fun u v => u.expr.Apart v.expr) : Settled us :=
  h.imp .inl

theorem covers_of_perm {rest : List Turn} (hp : Plain vs) (h : (us ++ rest).Perm vs) :
    Covers us vs := by
  have hapart (hv : Settled vs) : (us ++ rest).Pairwise fun u v => u.expr.Apart v.expr :=
    h.symm.pairwise (hv.apart hp) fun huv => huv.symm
  refine ⟨fun u hu => .inl (h.subset (by simp [hu])), fun hv => ?_, fun hv v hmem => ?_⟩
  · exact settled_of_apart (List.pairwise_append.mp (hapart hv)).1
  · rcases List.mem_append.mp (h.symm.subset hmem) with hu | hr
    · exact .inl hu
    · exact .inr (.inr fun u hu => (List.pairwise_append.mp (hapart hv)).2.2 u hu v hr)

end Turn

abbrev Rule {c : BodyContext} (T : Theory c) {α : Type} (A : Prop) (g : Spot) (us : List Turn)
    (x : Infer α) (Q : α → Prop) : Prop := Plan T A g us x (g.Stays Q)

variable {c : BodyContext} {T : Theory c} {α β : Type} {A B : Prop} {g : Spot} {us vs : List Turn}
  {x : Infer α} {f : α → Infer β}

namespace Plan

theorem weaken {Q : α → Spot → Prop} (hx : Plan T A g us x Q) (hv : Turn.Covers us vs) :
    Plan T A g vs x Q := hx.mono hv rfl (fun h => ⟨h, rfl⟩) fun _ _ _ h => h

theorem imp {Q R : α → Spot → Prop} (hx : Plan T A g us x Q) (h : ∀ a k, A → Q a k → R a k) :
    Plan T A g us x R := hx.mono (.refl us) rfl (fun h => ⟨h, rfl⟩) h

theorem assuming {Q : α → Spot → Prop} (hx : Plan T A g us x Q) (h : B → A) : Plan T B g us x Q :=
  hx.mono (.refl us) rfl (fun hB => ⟨h hB, rfl⟩) fun _ _ _ h => h

theorem andThen {Q : α → Spot → Prop} {R : β → Spot → Prop} (hx : Plan T A g us x Q)
    (hf : ∀ a k, Plan T (A ∧ Q a k) k vs (f a) R) : Plan T A g (us ++ vs) (x >>= f) R :=
  (hx.imp fun _ _ hA hQ => And.intro hA hQ).bind fun a k _ => hf a k

theorem map {f : α → β} {Q : α → Spot → Prop} {R : β → Spot → Prop} (hx : Plan T A g us x Q)
    (h : ∀ a k, A → Q a k → R (f a) k) : Plan T A g us (do return f (← x)) R := by
  have hbind := hx.andThen (f := fun a => Pure.pure (f a)) fun a k =>
    Plan.pure (Q := R) fun hA => h a k hA.1 hA.2
  rwa [List.append_nil] at hbind

end Plan

namespace Rule

variable {Q Q' : α → Prop} {R : β → Spot → Prop}

theorem pure {a : α} (h : A → Q a) : Rule T A g [] (Pure.pure a) Q :=
  Plan.pure fun hA => ⟨rfl, h hA⟩

theorem andThen (hx : Rule T A g us x Q) (hf : ∀ a, Plan T (A ∧ Q a) g vs (f a) R) :
    Plan T A g (us ++ vs) (x >>= f) R :=
  (Plan.imp hx fun _ _ hA hQ => And.intro hA hQ).bind fun a _ ho =>
    (hf a).mono (.refl vs) ho (fun h => ⟨⟨h.1, h.2.2⟩, h.2.1⟩) fun _ _ _ h => h

theorem imp (hx : Rule T A g us x Q) (h : ∀ a, A → Q a → Q' a) : Rule T A g us x Q' :=
  Plan.imp hx fun a _ hA hQ => ⟨hQ.1, h a hA hQ.2⟩

theorem trivial (hx : Rule T A g us x Q) : Rule T A g us x (fun _ => True) :=
  hx.imp fun _ _ _ => True.intro

theorem map {f : α → β} {R : β → Prop} (hx : Rule T A g us x Q) (h : ∀ a, A → Q a → R (f a)) :
    Rule T A g us (do return f (← x)) R :=
  Plan.map hx fun a _ hA hQ => ⟨hQ.1, h a hA hQ.2⟩

theorem returns {b : β} {R : β → Prop} (hx : Rule T A g us x Q) (h : ∀ a, A → Q a → R b) :
    Rule T A g us (x >>= fun _ => Pure.pure b) R := hx.map (f := fun _ => b) h

theorem discard {R : PUnit → Prop} (hx : Rule T A g us x Q) (h : ∀ a, A → Q a → R ⟨⟩) :
    Rule T A g us (discard x) R := hx.returns h

theorem ignored (hx : Rule T A g us x Q) : Rule T A g us (Functor.discard x) fun _ => True :=
  hx.discard fun _ _ _ => True.intro

theorem ite {p : Prop} [Decidable p] {y : Infer α} {R : α → Spot → Prop}
    (hx : p → Plan T A g us x R) (hy : ¬ p → Plan T A g us y R) :
    Plan T A g us (if p then x else y) R := by
  split
  · next h => exact hx h
  · next h => exact hy h

end Rule

end TypeFlow
