import TypeFlow.Proofs.Flow.Callables
import TypeFlow.Proofs.Flow.Paths
import TypeFlow.Proofs.Infer.Frames

namespace TypeFlow

open BodyState (Writes)

structure Findings where
  typeOf : Nat → Option Ty
  instOf : Nat → Option Instantiation
  errors : List CheckError

def BodyState.findings (s : BodyState) : Findings := ⟨s.typeOf, s.instOf, s.errors⟩

def Findings.exprType (F : Findings) (e : Expr) : Option Ty :=
  match e.site? with
  | some s => F.typeOf s.id
  | none => some .error

structure Fits (r : Registry) (tested : Path → Prop) (good : Ty → Prop) (σ : Scope) (l : Layer) : Prop where
  scope : σ.Holds good
  layer : l.Holds good
  locals : l.Matches σ
  paths : l.Rooted (r.KnowsPath tested) σ

structure BodyState.Records (good : Ty → Prop) (s : BodyState) : Prop where
  type : ∀ e ∈ s.types, good e.2
  inst : ∀ e ∈ s.insts, ∀ t ∈ e.2.typeArgs, good t

theorem BodyState.Records.imp {good good' : Ty → Prop} {s : BodyState} (h : s.Records good)
    (k : ∀ t, good t → good' t) : s.Records good' :=
  ⟨fun e he => k _ (h.type e he), fun e he t ht => k _ (h.inst e he t ht)⟩

structure BodyClosure (c : BodyContext) (good : Ty → Prop) : Prop where
  types : TypeClosure c good
  variadic : ∀ {f sig}, c.registry.function f = some sig → sig.variadic = true → sig.params = [] →
    good .error

structure BodyLaws (c : BodyContext) (good : Ty → Prop) : Prop where
  types : TypeLaws c good
  variadic : ∀ {f sig}, c.registry.function f = some sig → sig.variadic = true → sig.params = [] →
    good .error

theorem BodyLaws.toClosure {c : BodyContext} {good : Ty → Prop} (L : BodyLaws c good) : BodyClosure c good :=
  ⟨L.types.toTypeClosure, L.variadic⟩

namespace Findings

variable (F : Findings) (c : BodyContext) (tested : Path → Prop) (good : Ty → Prop)

def account : Account c where
  good := good
  about := tested
  views := Ty.Shows
  bound := c.registry.DeclaresPath tested
  reads := c.registry.ReadsPath tested
  fits := Fits c.registry tested good
  final := True
  typeOf := F.exprType
  reported span := ∃ e ∈ F.errors, e.span = span
  stopped := False

def Gathers (e : Expr) : Prop := ∀ t, F.exprType e = some t → t.isUntyped = true → good t

def Permits : Prop := F.errors ≠ [] → good .error

structure Follows (s : BodyState) (is : List Nat) : Prop where
  errors : s.errors ⊆ F.errors
  running : s.aborted = false
  typeOf : ∀ i ∈ is, F.typeOf i = s.typeOf i
  instOf : ∀ i ∈ is, F.instOf i = s.instOf i

def Meets (σ : Scope) (e : Expr) : Prop :=
  ∀ υ n site t, c.Within F.exprType σ e υ n → n.site? = some site → F.typeOf site.id = some t →
    (F.account c tested good).Spec ⟨site.id, υ, none⟩ n t ⟨site.id, υ, F.instOf site.id⟩

structure Checked (e : Expr) (s : BodyState) (v : Typed) (t : BodyState) : Prop where
  result : (F.account c tested good).Result s.scope e v
  told : F.exprType e = some v.ty
  fits : Fits c.registry tested good s.scope t.flow.top
  records : t.Records (Ty.Loose good)
  meets : F.Meets c tested good s.scope e

end Findings

def BodyState.Untouched (s : BodyState) (e : Expr) : Prop :=
  e.isUntypedLiteral = true ∨ ∀ i ∈ e.ids, s.typeOf i = none ∧ s.instOf i = none

structure BodyState.Ready (r : Registry) (tested : Path → Prop) (good : Ty → Prop) (s : BodyState) (e : Expr) :
    Prop where
  fits : Fits r tested good s.scope s.flow.top
  records : s.Records (Ty.Loose good)
  nodup : e.ids.Nodup
  untouched : s.Untouched e

def Expr.Sound (c : BodyContext) (tested : Path → Prop) (good : Ty → Prop) (e : Expr) : Prop :=
  ∀ (F : Findings), F.Permits good → (∀ p ∈ e.sources, F.Gathers good p) →
    ∀ x used s, (F.account c tested good).Suggests x → s.Ready c.registry tested good e →
    F.Follows ((e.infer x used).after c s) e.ids →
    F.Checked c tested good e s ((e.infer x used).value c s) ((e.infer x used).after c s)

variable {c : BodyContext} {tested : Path → Prop} {good : Ty → Prop} {F : Findings}

def Findings.theory (F : Findings) (tested : Path → Prop) (L : BodyClosure c good) (h : F.Permits good) :
    Theory c where
  toAccount := F.account c tested good
  runs ch := ch = ch.expr.asChild ∧ ch.expr.Sound c tested good ∧ ∀ p ∈ ch.expr.sources, F.Gathers good p
  pattern _ := True
  gathers := F.Gathers good
  laws := L.types
  source h k := h _ (k True.intro)
  settled _ :=
    { running := id
      named h := h.named rfl
      receiver h k p := p.receiver h.paths k
      known h k hl := (h.locals _ (mem_of_lookup k) rfl _ hl).2 }
  error := by
    rintro _ ⟨e, he, -⟩
    exact h (List.ne_nil_of_mem he)
  variadic := L.variadic
  callee _ _ := True.intro
  field _ _ := True.intro
  wildcard := True.intro
  unseen _ _ := id
  test := Registry.shows_of_canHold
  root := Registry.declaresPath_root
  through h k := k.field h.paths
  declared h := h.reads
  narrowed h k p := absurd (h.paths.get k).1 p.not_tested
  member h := h.field
  lookup h k := h.scope.lookup k
  entry h k := (h.layer.get k).ty
  apply h k := ⟨h.scope, h.layer.set (L.types.refine (h.layer.view k.declared) k.tested),
    h.locals.apply k.bound.named (k.seen True.intro), h.paths.apply (k.bound.knows k.about)⟩
  merge h k := ⟨h.scope, h.layer.merge k.layer, h.locals.merge k.locals,
    h.paths.merge k.paths fun ha _ _ => ha⟩
  invalidate p h := ⟨h.scope, h.layer.invalidate p, h.locals.invalidate p, h.paths.invalidate p⟩

theorem BodyContext.Within.id_mem {types : Expr → Option Ty} {σ υ : Scope} {e n : Expr} {site : Site}
    (h : c.Within types σ e υ n) (hs : n.site? = some site) : site.id ∈ e.ids := by
  induction h with
  | here σ e => simp [Expr.ids_eq e, hs]
  | @inside σ τ υ e p n hp _ ih =>
    have hmem : p ∈ e.parts := by
      rw [← c.map_snd_partsIn types σ e]
      exact List.mem_map.mpr ⟨_, hp, rfl⟩
    rw [Expr.ids_eq]
    exact List.mem_append_left _ (List.mem_flatMap.mpr ⟨p, hmem, ih hs⟩)

namespace Findings

theorem meets_of_unreached {σ : Scope} {e : Expr} (h : ∀ i ∈ e.ids, F.typeOf i = none) :
    F.Meets c tested good σ e := by
  intro υ n site t hn hs ht
  exact nomatch (h _ (hn.id_mem hs)).symm.trans ht

theorem meets_of_parts {σ : Scope} {e : Expr}
    (h : ∀ site t, e.site? = some site → F.typeOf site.id = some t →
      (F.account c tested good).Spec ⟨site.id, σ, none⟩ e t ⟨site.id, σ, F.instOf site.id⟩)
    (hparts : ∀ q ∈ c.partsIn F.exprType σ e, F.Meets c tested good q.1 q.2) : F.Meets c tested good σ e := by
  intro υ n site t hn hs ht
  cases hn with
  | here => exact h site t hs ht
  | inside hmem hin => exact hparts _ hmem _ _ _ _ hin hs ht

theorem spec_of_isUntypedLiteral {T : Account c} {g k : Spot} {e : Expr} {t : Ty}
    (h : e.isUntypedLiteral = true) : T.Spec g e t k := by
  cases e
  case int | float | noneLit | nilLit | neg => exact True.intro
  all_goals cases h

theorem meets_of_isUntypedLiteral {σ : Scope} {e : Expr} (h : e.isUntypedLiteral = true) :
    F.Meets c tested good σ e := by
  have hnumber {p : Expr} (hp : p.isNumber = true) : F.Meets c tested good σ p := by
    cases p
    case int | float => exact meets_of_parts (fun _ _ _ _ => spec_of_isUntypedLiteral rfl) nofun
    all_goals cases hp
  refine meets_of_parts (fun _ _ _ _ => spec_of_isUntypedLiteral h) ?_
  cases e
  case int | float | noneLit | nilLit => exact nofun
  case neg s e => exact List.forall_mem_singleton.mpr (hnumber h)
  all_goals cases h

end Findings

structure Spot.At (r : Registry) (tested : Path → Prop) (good : Ty → Prop) (g : Spot) (s : BodyState) : Prop where
  scope : s.scope = g.scope
  inst : s.instOf g.own = g.inst
  fits : Fits r tested good g.scope s.flow.top
  records : s.Records (Ty.Loose good)

theorem BodyState.Untouched.of_writes {s t : BodyState} {is : List Nat} {e : Expr}
    (h : s.Untouched e) (k : Writes c is s t) (hi : ∀ i ∈ e.ids, i ∉ is) : t.Untouched e := by
  rcases h with h | h
  · exact .inl h
  · refine .inr fun i hmem => ?_
    rw [k.typeOf i (hi i hmem), k.instOf i (hi i hmem)]
    exact h i hmem

namespace Turn

structure Open (own : Nat) (s : BodyState) (us : List Turn) : Prop where
  ready : ∀ u ∈ us, u.expr.ids.Nodup ∧ s.Untouched u.expr
  settled : Settled us
  own : own ∉ ids us

def finalIds (us : List Turn) : List Nat := ids (us.filter fun u => !u.draft)

variable {own i : Nat} {s t : BodyState} {us vs : List Turn}

theorem mem_finalIds : i ∈ finalIds us ↔ ∃ u ∈ us, u.draft = false ∧ i ∈ u.expr.ids := by
  simp [finalIds, ids, and_assoc]

theorem ids_append (us vs : List Turn) : ids (us ++ vs) = ids us ++ ids vs := List.flatMap_append

namespace Open

theorem left (h : Open own s (us ++ vs)) : Open own s us :=
  ⟨fun u hu => h.ready u (List.mem_append_left _ hu), (List.pairwise_append.mp h.settled).1,
    fun hi => h.own (ids_append us vs ▸ List.mem_append_left _ hi)⟩

theorem right (h : Open own s (us ++ vs)) (k : Writes c (own :: ids us) s t) : Open own t vs := by
  obtain ⟨-, hvs, hcross⟩ := List.pairwise_append.mp h.settled
  have hown : own ∉ ids vs := fun hi => h.own (ids_append us vs ▸ List.mem_append_right _ hi)
  refine ⟨fun v hv => ?_, hvs, hown⟩
  obtain ⟨hnodup, huntouched⟩ := h.ready v (List.mem_append_right _ hv)
  refine ⟨hnodup, ?_⟩
  cases hlit : v.expr.isUntypedLiteral with
  | true => exact .inl hlit
  | false =>
    refine huntouched.of_writes k fun i hi hmem => ?_
    rcases List.mem_cons.mp hmem with rfl | hmem
    · exact hown (mem_ids.mpr ⟨v, hv, hi⟩)
    · obtain ⟨u, hu, hiu⟩ := mem_ids.mp hmem
      rcases hcross u hu v hv with hapart | ⟨-, hl⟩
      · exact hapart i hiu hi
      · exact nomatch hlit.symm.trans hl

theorem covered (h : Open own s vs) (hv : Covers us vs) : Open own s us := by
  refine ⟨fun u hu => ?_, hv.settled h.settled, fun hi => h.own (hv.ids_subset hi)⟩
  rcases hv.mem u hu with hmem | ⟨-, v, hmem, heq⟩
  · exact h.ready u hmem
  · exact heq ▸ h.ready v hmem

end Open

theorem Covers.finalIds_subset (h : Covers us vs) : finalIds us ⊆ finalIds vs := by
  intro i hi
  obtain ⟨u, hu, hd, hi⟩ := mem_finalIds.mp hi
  rcases h.mem u hu with hv | ⟨hdraft, -⟩
  · exact mem_finalIds.mpr ⟨u, hv, hd, hi⟩
  · exact nomatch hd.symm.trans hdraft

end Turn

namespace Findings.Follows

variable {own : Nat} {s t : BodyState} {us vs : List Turn} {is js : List Nat}

theorem mono (h : F.Follows s js) (k : is ⊆ js) : F.Follows s is :=
  ⟨h.errors, h.running, fun i hi => h.typeOf i (k hi), fun i hi => h.instOf i (k hi)⟩

theorem of_writes (h : F.Follows t js) (k : Writes c is s t) (hi : ∀ i ∈ js, i ∉ is) :
    F.Follows s js :=
  ⟨fun _ he => h.errors (k.errors.subset he), k.running h.running,
    fun i hj => (h.typeOf i hj).trans (k.typeOf i (hi i hj)),
    fun i hj => (h.instOf i hj).trans (k.instOf i (hi i hj))⟩

theorem left (h : F.Follows t (Turn.finalIds (us ++ vs))) (ho : Turn.Open own s (us ++ vs))
    {r : BodyState} (k : Writes c (own :: Turn.ids vs) r t) : F.Follows r (Turn.finalIds us) := by
  have hsub : Turn.finalIds us ⊆ Turn.finalIds (us ++ vs) := by
    simp [Turn.finalIds, Turn.ids_append]
  refine (h.mono hsub).of_writes k fun i hi hmem => ?_
  obtain ⟨u, hu, hd, hi⟩ := Turn.mem_finalIds.mp hi
  rcases List.mem_cons.mp hmem with rfl | hmem
  · exact ho.left.own (Turn.mem_ids.mpr ⟨u, hu, hi⟩)
  · obtain ⟨v, hv, hiv⟩ := Turn.mem_ids.mp hmem
    rcases (List.pairwise_append.mp ho.settled).2.2 u hu v hv with hapart | ⟨hdraft, -⟩
    · exact hapart i hi hiv
    · exact nomatch hd.symm.trans hdraft

theorem right (h : F.Follows t (Turn.finalIds (us ++ vs))) : F.Follows t (Turn.finalIds vs) :=
  h.mono (by simp [Turn.finalIds, Turn.ids_append])

end Findings.Follows

def Findings.Upholds (F : Findings) (c : BodyContext) (tested : Path → Prop) (good : Ty → Prop) {α : Type}
    (A : Prop) (g : Spot) (us : List Turn) (x : Infer α) (Q : α → Spot → Prop) : Prop :=
  ∀ s, A → g.At c.registry tested good s → Turn.Open g.own s us → F.Follows (x.after c s) (Turn.finalIds us) →
    ∃ k, k.own = g.own ∧ Q (x.value c s) k ∧ k.At c.registry tested good (x.after c s) ∧
      ∀ u ∈ us, u.draft = false → F.Meets c tested good u.scope u.expr

namespace Findings.Upholds

variable {α β : Type} {A B : Prop} {g h : Spot} {us vs : List Turn} {x : Infer α} {f : α → Infer β}
  {Q : α → Spot → Prop} {R : β → Spot → Prop} {P : α → Prop}

theorem bind (hx : F.Upholds c tested good A g us x Q)
    (hf : ∀ a k, k.own = g.own → F.Upholds c tested good (Q a k) k vs (f a) R)
    (hwx : ∀ s, Writes c (g.own :: Turn.ids us) s (x.after c s))
    (hwf : ∀ a s, Writes c (g.own :: Turn.ids vs) s ((f a).after c s)) :
    F.Upholds c tested good A g (us ++ vs) (x >>= f) R := by
  intro s hA hg ho hfollows
  obtain ⟨k, hk, hQ, hat, hmeets⟩ := hx s hA hg ho.left (hfollows.left ho (hwf _ _))
  have hopen : Turn.Open k.own (x.after c s) vs := hk ▸ ho.right (hwx s)
  obtain ⟨l, hl, hR, hat', hmeets'⟩ := hf _ k hk _ hQ hat hopen hfollows.right
  exact ⟨l, hl.trans hk, hR, hat', List.forall_mem_append.mpr ⟨hmeets, hmeets'⟩⟩

theorem meets_of_apart {s t : BodyState} {v : Turn} {own : Nat} (ho : Turn.Open own s vs)
    (hw : Writes c (own :: Turn.ids us) s t) (hfollows : F.Follows t (Turn.finalIds vs)) (hv : v ∈ vs)
    (hd : v.draft = false) (hapart : ∀ u ∈ us, u.expr.Apart v.expr) :
    F.Meets c tested good v.scope v.expr := by
  rcases (ho.ready v hv).2 with hlit | hnew
  · exact meets_of_isUntypedLiteral hlit
  · refine meets_of_unreached fun i hi => ?_
    have hout : i ∉ own :: Turn.ids us := by
      rw [List.mem_cons, Turn.mem_ids]
      rintro (rfl | ⟨u, hu, hiu⟩)
      · exact ho.own (Turn.mem_ids.mpr ⟨v, hv, hi⟩)
      · exact hapart u hu i hiu hi
    calc F.typeOf i
        = t.typeOf i := hfollows.typeOf i (Turn.mem_finalIds.mpr ⟨v, hv, hd, hi⟩)
      _ = s.typeOf i := hw.typeOf i hout
      _ = none := (hnew i hi).1

theorem mono {R : α → Spot → Prop} (hx : F.Upholds c tested good A g us x Q) (hv : Turn.Covers us vs)
    (hB : B → A ∧ h = g) (hR : ∀ a k, B → Q a k → R a k)
    (hw : ∀ s, Writes c (g.own :: Turn.ids us) s (x.after c s)) : F.Upholds c tested good B h vs x R := by
  intro s hb hg ho hfollows
  obtain ⟨hA, rfl⟩ := hB hb
  have hmono := hfollows.mono hv.finalIds_subset
  obtain ⟨k, hk, hQ, hat, hmeets⟩ := hx s hA hg (ho.covered hv) hmono
  refine ⟨k, hk, hR _ _ hb hQ, hat, fun v hmem hd => ?_⟩
  rcases hv.rest ho.settled v hmem with hu | hlit | hapart
  · exact hmeets v hu hd
  · exact meets_of_isUntypedLiteral hlit
  · exact meets_of_apart ho (hw s) hfollows hmem hd hapart

theorem inBranch {fs : List FlowFact} (hx : F.Upholds c tested good A g us x (g.Stays P))
    (hf : A → ∀ {l}, Fits c.registry tested good g.scope l →
      Fits c.registry tested good g.scope (l.applyAll c.registry fs))
    (hw : ∀ s, Writes c (g.own :: Turn.ids us) s (x.after c s)) :
    F.Upholds c tested good A g us (Infer.inBranch fs x)
      (g.Stays fun r => P r.1 ∧ Fits c.registry tested good g.scope r.2) := by
  intro s hA hg ho hfollows
  have hpush : g.At c.registry tested good { s with flow := s.flow.push c.registry fs } :=
    ⟨hg.scope, hg.inst, hf hA hg.fits, hg.records.type, hg.records.inst⟩
  obtain ⟨hafter, hvalue⟩ := Infer.run_inBranch c fs x rfl (hw _).below
  rw [hafter] at hfollows ⊢
  rw [hvalue]
  obtain ⟨k, -, ⟨rfl, hP⟩, hat, hmeets⟩ := hx _ hA hpush ⟨ho.ready, ho.settled, ho.own⟩
    ⟨hfollows.errors, hfollows.running, hfollows.typeOf, hfollows.instOf⟩
  exact ⟨k, rfl, ⟨rfl, hP, hat.fits⟩,
    ⟨hat.scope, hat.inst, hg.fits, hat.records.type, hat.records.inst⟩, hmeets⟩

theorem inScope
    (hx : F.Upholds c tested good A { g with scope := g.scope.child } us x fun a k => k.inst = g.inst ∧ P a)
    (hw : ∀ s, Writes c (g.own :: Turn.ids us) s (x.after c s)) :
    F.Upholds c tested good A g us (Infer.inScope x) (g.Stays P) := by
  intro s hA hg ho hfollows
  have henter : Spot.At c.registry tested good { g with scope := g.scope.child } { s with scope := s.scope.child } :=
    ⟨congrArg Scope.child hg.scope, hg.inst, ⟨hg.fits.scope.child, hg.fits.layer, hg.fits.locals, hg.fits.paths⟩,
      hg.records.type, hg.records.inst⟩
  have houter := (hw { s with scope := s.scope.child }).outer
  obtain ⟨hafter, hvalue⟩ := Infer.run_inScope c x rfl houter
  rw [hafter] at hfollows ⊢
  rw [hvalue]
  obtain ⟨k, hown, ⟨hinst, hP⟩, hat, hmeets⟩ := hx _ hA henter ⟨ho.ready, ho.settled, ho.own⟩
    ⟨hfollows.errors, hfollows.running, hfollows.typeOf, hfollows.instOf⟩
  have hown' : k.own = g.own := hown
  refine ⟨g, rfl, ⟨rfl, hP⟩, ⟨hg.scope, ?_, ⟨hg.fits.scope, ?_, ?_, ?_⟩, hat.records.type, hat.records.inst⟩,
    hmeets⟩
  · rw [← hinst, ← hat.inst, hown']
    rfl
  · exact fun e he => hat.fits.layer e (Layer.mem_foldl_invalidate he).1
  · rw [← hg.scope]
    exact Layer.Matches.leave (hat.scope ▸ hat.fits.locals) houter
  · rw [← hg.scope]
    exact Layer.Rooted.leave (hat.scope ▸ hat.fits.paths) houter

theorem inLoop (hx : F.Upholds c tested good A g us x (g.Stays P)) :
    F.Upholds c tested good A g us (Infer.inLoop x) (g.Stays P) := by
  intro s hA hg ho hfollows
  have henter : g.At c.registry tested good { s with loopDepth := s.loopDepth + 1 } :=
    ⟨hg.scope, hg.inst, hg.fits, hg.records.type, hg.records.inst⟩
  obtain ⟨k, -, ⟨rfl, hP⟩, hat, hmeets⟩ := hx _ hA henter ⟨ho.ready, ho.settled, ho.own⟩
    ⟨hfollows.errors, hfollows.running, hfollows.typeOf, hfollows.instOf⟩
  exact ⟨k, rfl, ⟨rfl, hP⟩, ⟨hat.scope, hat.inst, hat.fits, hat.records.type, hat.records.inst⟩, hmeets⟩

theorem at_infer {e : Expr} {y : Option Ty} {used : Bool} {s : BodyState} (hg : g.At c.registry tested good s)
    (ho : g.own ∉ e.ids) (hfits : Fits c.registry tested good s.scope ((e.infer y used).after c s).flow.top)
    (hrecords : ((e.infer y used).after c s).Records (Ty.Loose good)) :
    g.At c.registry tested good ((e.infer y used).after c s) := by
  obtain ⟨hwrites, hscope⟩ := e.confined c y used s
  exact ⟨hscope.trans hg.scope, (hwrites.instOf _ ho).trans hg.inst, hg.scope ▸ hfits, hrecords⟩

theorem ready_of_open {e : Expr} {σ : Scope} {b : Bool} {s : BodyState} (hg : g.At c.registry tested good s)
    (ho : Turn.Open g.own s [⟨σ, e, b⟩]) : s.Ready c.registry tested good e := by
  obtain ⟨hnodup, huntouched⟩ := ho.ready _ (List.mem_singleton.mpr rfl)
  exact ⟨hg.scope ▸ hg.fits, hg.records, hnodup, huntouched⟩

theorem own_not_mem {e : Expr} {σ : Scope} {b : Bool} {s : BodyState} {own : Nat}
    (ho : Turn.Open own s [⟨σ, e, b⟩]) : own ∉ e.ids :=
  fun h => ho.own (Turn.mem_ids.mpr ⟨_, List.mem_singleton.mpr rfl, h⟩)

theorem child {e : Expr} {y : Option Ty} {σ : Scope} (used : Bool) (hF : F.Permits good)
    (he : e.Sound c tested good) (hg : ∀ p ∈ e.sources, F.Gathers good p)
    (hx : A → (F.account c tested good).Suggests y) (hσ : A → g.scope = σ) :
    F.Upholds c tested good A g [⟨σ, e, false⟩] (e.infer y used) (g.Stays fun t =>
      (F.account c tested good).Result g.scope e t ∧ (F.account c tested good).told e t.ty) := by
  intro s hA hat ho hfollows
  have hids : Turn.finalIds [⟨σ, e, false⟩] = e.ids := List.append_nil _
  have hchecked := he F hF hg y used s (hx hA) (ready_of_open hat ho) (hids ▸ hfollows)
  refine ⟨g, rfl, ⟨rfl, hat.scope ▸ hchecked.result, fun _ => hchecked.told⟩,
    at_infer hat (own_not_mem ho) hchecked.fits hchecked.records, ?_⟩
  refine List.forall_mem_singleton.mpr fun _ => ?_
  rw [← hσ hA, ← hat.scope]
  exact hchecked.meets

theorem draft {e : Expr} {σ : Scope} (hF : F.Permits good) (he : e.Sound c tested good)
    (hl : e.isUntypedLiteral = true) :
    F.Upholds c tested good A g [⟨σ, e, true⟩] (e.infer none true) (g.Stays fun t => t.ty.Loose good) := by
  intro s hA hg ho hfollows
  let t := (e.infer none true).after c s
  have hpermits : t.findings.Permits good := fun hne => hF fun hnil => by
    obtain ⟨err, herr⟩ := List.exists_mem_of_ne_nil _ hne
    have hmem : err ∈ F.errors := hfollows.errors herr
    simp [hnil] at hmem
  have hself : t.findings.Follows t e.ids :=
    ⟨List.Subset.refl _, hfollows.running, fun _ _ => rfl, fun _ _ => rfl⟩
  have hgathers : ∀ p ∈ e.sources, t.findings.Gathers good p := by
    rw [Expr.sources_of_isUntypedLiteral hl]
    exact nofun
  have hchecked := he t.findings hpermits hgathers none true s nofun (ready_of_open hg ho) hself
  exact ⟨g, rfl, ⟨rfl, hchecked.result.ty⟩, at_infer hg (own_not_mem ho) hchecked.fits hchecked.records,
    List.forall_mem_singleton.mpr nofun⟩

theorem note {site : Site} {n : Int64} {t : Ty} {σ : Scope} (ht : A → good t) :
    F.Upholds c tested good A g [⟨σ, .int site n, false⟩] (Infer.store site.id t)
      (g.Stays fun _ => (F.account c tested good).told (.int site n) t) := by
  intro s hA hg ho hfollows
  have hmem : site.id ∈ Turn.finalIds [⟨σ, .int site n, false⟩] := List.mem_singleton.mpr rfl
  have hstored : ((Infer.store site.id t).after c s).typeOf site.id = some t := List.lookup_cons_self
  refine ⟨g, rfl, ⟨rfl, fun _ => (hfollows.typeOf _ hmem).trans hstored⟩,
    ⟨hg.scope, hg.inst, hg.fits, ?_, hg.records.inst⟩, ?_⟩
  · exact List.forall_mem_cons.mpr ⟨.inl (ht hA), hg.records.type⟩
  · exact List.forall_mem_singleton.mpr fun _ => meets_of_isUntypedLiteral rfl

end Findings.Upholds

theorem Plan.upholds {L : BodyClosure c good} {hF : F.Permits good} {α : Type} {A : Prop} {g : Spot}
    {us : List Turn} {x : Infer α} {Q : α → Spot → Prop} (h : Plan (F.theory tested L hF) A g us x Q) :
    F.Upholds c tested good A g us x Q := by
  have hw {α : Type} {A : Prop} {g : Spot} {us : List Turn} {x : Infer α} {Q : α → Spot → Prop}
      (h : Plan (F.theory tested L hF) A g us x Q) (s : BodyState) : Writes c (g.own :: Turn.ids us) s (x.after c s) :=
    h.writes (fun ch hch => hch.1 ▸ ch.expr.confined c) s
  induction h with
  | pure h => exact fun s hA hg _ _ => ⟨_, rfl, h hA, hg, nofun⟩
  | @bind _ _ _ g us vs x f _ _ hx hf ihx ihf => exact ihx.bind ihf (hw hx) fun a => hw (hf a g rfl)
  | mono hx hv _ hB hR ih => exact ih.mono hv hB hR (hw hx)
  | read _ _ ih => exact ih
  | @look _ g =>
    intro s _ hg _ hfollows
    refine ⟨g, rfl, ⟨rfl, hg.scope, hg.fits, fun h => ?_⟩, hg, nofun⟩
    exact nomatch hfollows.running.symm.trans h
  | @report _ g span cause =>
    intro s _ hg _ hfollows
    have hmem : ⟨span, cause⟩ ∈ s.errors ++ [⟨span, cause⟩] := by simp
    exact ⟨g, rfl, ⟨rfl, rfl, _, hfollows.errors hmem, rfl⟩,
      ⟨hg.scope, hg.inst, hg.fits, hg.records.type, hg.records.inst⟩, nofun⟩
  | @amend _ g _ _ ha hf =>
    intro s hA hg _ _
    rw [Infer.after_amend ha]
    exact ⟨g, rfl, ⟨rfl, True.intro⟩,
      ⟨hg.scope, hg.inst, hf hA _ hg.fits, hg.records.type, hg.records.inst⟩, nofun⟩
  | @readLocal _ g =>
    intro s _ hg _ _
    exact ⟨g, rfl, ⟨rfl, _, hg.fits, rfl⟩, hg, nofun⟩
  | @control _ g =>
    intro s _ hg _ _
    exact ⟨g, rfl, ⟨rfl, True.intro⟩, hg, nofun⟩
  | @joinArms _ g span arms x =>
    intro s _ hg _ hfollows
    rcases Infer.run_joinArms c span arms x with ⟨t, ht, hrun⟩ | ⟨e, -, hrun⟩
    · obtain ⟨hvalue, hafter, -⟩ := hrun s
      rw [hvalue, hafter]
      exact ⟨g, rfl, ⟨rfl, .inl ht⟩, hg, nofun⟩
    · obtain ⟨hvalue, hafter, -⟩ := hrun s
      rw [hafter] at hfollows
      rw [hvalue, hafter]
      have hmem : ⟨span, .ofJoin e⟩ ∈ s.errors ++ [(⟨span, .ofJoin e⟩ : CheckError)] := by simp
      exact ⟨g, rfl, ⟨rfl, .inr ⟨rfl, _, hfollows.errors hmem, rfl⟩⟩,
        ⟨hg.scope, hg.inst, hg.fits, hg.records.type, hg.records.inst⟩, nofun⟩
  | @bindLocal _ g t x m ht =>
    intro s hA hg _ _
    refine ⟨{ g with scope := g.scope.bind x ⟨t, m⟩ }, rfl, rfl,
      ⟨?_, hg.inst, ?_, hg.records.type, hg.records.inst⟩, nofun⟩
    · exact congrArg (Scope.bind · x ⟨t, m⟩) hg.scope
    · exact ⟨hg.fits.scope.bind (ht hA), hg.fits.layer.invalidate _, hg.fits.locals.bind _ _,
        hg.fits.paths.bind _ _⟩
  | inBranch hf hx ih => exact ih.inBranch (fun hA _ hl => Theory.fits_applyAll hl (hf hA)) (hw hx)
  | inScope hx ih =>
    have hwrites := hw hx
    exact ih.inScope hwrites
  | inLoop _ ih => exact ih.inLoop
  | child used hc hx hσ =>
    rw [hc.1]
    exact .child used hF hc.2.1 hc.2.2 hx fun hA => hσ hA True.intro
  | draft hc hl =>
    rw [hc.1]
    exact .draft hF hc.2.1 hl
  | note ht => exact .note ht
  | @solve _ g =>
    intro s _ hg _ _
    exact ⟨g, rfl, ⟨rfl, _, rfl⟩, ⟨hg.scope, hg.inst, hg.fits, hg.records.type, hg.records.inst⟩, nofun⟩
  | @recordInst A g id i ho hi =>
    subst ho
    intro s hA hg _ _
    refine ⟨{ g with inst := some i }, rfl, rfl, ⟨hg.scope, ?_, hg.fits, hg.records.type, ?_⟩, nofun⟩
    · exact List.lookup_cons_self
    · exact List.forall_mem_cons.mpr ⟨fun t ht => .inl (hi hA t ht), hg.records.inst⟩

end TypeFlow
