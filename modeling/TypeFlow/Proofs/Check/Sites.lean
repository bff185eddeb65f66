import TypeFlow.Proofs.Check.Units

namespace TypeFlow

namespace Findings

variable (F : Findings) (c : BodyContext)

def Assigns (e : Expr) (t : Ty) : Prop :=
  ∃ u, F.exprType e = some u ∧ c.registry.assignableIn c.bounds u t = true

def AssignsAll (target : Nat → Option Ty) (es : List Expr) : Prop :=
  ∀ k e t, es[k]? = some e → target k = some t → F.Assigns c e t

def AssignsAt (s : Site) (gs : Generics) (values : (Ty → Ty) → Prop) : Prop :=
  if gs.isEmpty then values id else ∃ i, F.instOf s.id = some i ∧ values i.apply

def RespectsCall (σ : Scope) (s : Site) (f : String) (es : List Expr) : Prop :=
  match σ.lookup f with
  | some l => ∃ callee, l.ty.Offers callee ∧ ∀ ps v r, callee = .function ps v r →
      F.AssignsAll c (fun k => (ps[k]?).or ps.getLast?) es
  | none => ∀ sig, c.registry.function f = some sig →
      F.AssignsAt s sig.generics fun subst => F.AssignsAll c (fun k => (sig.paramAt k).map subst) es

def Respects (σ : Scope) : Expr → Prop
  | .call s f _ as => F.RespectsCall c σ s f as
  | .method _ e x as => ∀ t m, F.exprType e = some t → c.registry.findMethod t x = some m →
      F.AssignsAll c (fun k => (m.method.sig.paramAt k).map (Ty.substParams m.receiverArgs)) as
  | .construct s x _ fs => ∀ d info declared is, c.registry.typeDef x = some (.decl d) →
      c.registry.decl? d = some info → info.kind = .struct declared is →
      F.AssignsAt s info.generics fun subst => ∀ f ∈ fs, ∀ t, declared.lookup f.name = some t →
        F.Assigns c f.value (subst t)
  | .ret _ e => e.isPresent = true → F.Assigns c e c.returnType
  | .block _ ss _ => ∀ span x m w e, .bind span x m (some w) e ∈ ss → F.Assigns c e (c.writtenType w)
  | _ => True

def Settled (s : Site) (gs : Generics) (f : Instantiation → Ty) (t : Ty) : Prop :=
  (∃ i, F.instOf s.id = some i ∧ c.Solves gs i ∧
      (∀ u ∈ i.typeArgs, u.VarFree) ∧ t = f i) ∨
    F.instOf s.id = none ∧ t = .error ∧ ∃ e ∈ F.errors, e.span = s.span

def Resolves (σ : Scope) : Expr → Ty → Prop
  | .call s f _ _, t => σ.lookup f = none → ∀ sig, c.registry.function f = some sig → sig.generics ≠ [] →
      F.Settled c s sig.generics (·.apply sig.ret) t
  | .construct s x _ _, t => ∀ d info fields is, c.registry.typeDef x = some (.decl d) →
      c.registry.decl? d = some info → info.kind = .struct fields is → info.generics ≠ [] →
      F.Settled c s info.generics (fun i => .named d i.typeArgs) t
  | _, _ => True

variable {F : Findings} {c : BodyContext} {tested : Path → Prop} {good : Ty → Prop} {σ : Scope} {n : Expr}
  {s : Site} {t : Ty}

section

variable (h : F.errors = [])

include h

theorem not_failed : ¬ (F.account c tested good).failed := by
  rintro (hstopped | ⟨span, e, he, -⟩)
  · exact hstopped
  · rw [h] at he
    cases he

theorem assigns_of_accepts {e : Expr} (k : (F.account c tested good).Accepts e t) : F.Assigns c e t := by
  obtain ⟨u, hu, hallows⟩ := k True.intro
  exact ⟨u, hu, hallows.resolve_right (not_failed h)⟩

theorem assignsAll_of_passes {target : Nat → Option Ty} {es : List Expr}
    (k : (F.account c tested good).Passes target 0 es) : F.AssignsAll c target es := by
  intro i e t he ht
  refine assigns_of_accepts h (k he ?_)
  rwa [Nat.zero_add]

theorem instantiates_of_settles {own : Nat} {span : Span} {gs : Generics} {args : List (Expr × Ty)}
    {f : Instantiation → Ty} {inst : Option Instantiation}
    (k : (F.account c tested good).Settles ⟨own, σ, none⟩ span gs args f t ⟨own, σ, inst⟩) :
    ∃ i, inst = some i ∧ ∀ a ∈ args, F.Assigns c a.1 (i.apply a.2) := by
  have hfailed : ¬ (F.account c tested good).failed := not_failed h
  rcases k with ⟨i, hi, hinst, -⟩ | ⟨-, -, hreported⟩
  · exact ⟨i, hi, fun a ha => assigns_of_accepts h (hinst.accepts a ha)⟩
  · exact absurd (.inr ⟨span, hreported⟩) hfailed

theorem assignsAll_of_calledAs {d callee : Ty} {es : List Expr} (hd : d.Shows callee)
    (k : (F.account c tested good).CalledAs callee es) :
    ∃ callee, d.Offers callee ∧ ∀ ps v r, callee = .function ps v r →
      F.AssignsAll c (fun k => (ps[k]?).or ps.getLast?) es := by
  rcases k with hfailed | rfl | ⟨ps, v, r, rfl, hpasses⟩
  · exact absurd hfailed (not_failed h)
  · exact ⟨.error, hd _ .error, nofun⟩
  · refine ⟨_, hd _ (.function ps v r), fun ps' v' r' heq => ?_⟩
    cases heq
    exact assignsAll_of_passes h hpasses

theorem assignsAt_of_callsFunction {span : Span} {sig : Signature} {es : List Expr}
    (k : (F.account c tested good).CallsFunction ⟨s.id, σ, none⟩ span sig es t ⟨s.id, σ, F.instOf s.id⟩) :
    F.AssignsAt s sig.generics fun subst => F.AssignsAll c (fun k => (sig.paramAt k).map subst) es := by
  unfold Account.CallsFunction at k
  unfold AssignsAt
  split at k
  · next hempty =>
    rw [if_pos hempty]
    simp only [Option.map_id_fun, id_eq]
    exact assignsAll_of_passes h (k.2.resolve_left (not_failed h))
  · next hempty =>
    rw [if_neg hempty]
    obtain ⟨i, hi, hargs⟩ := instantiates_of_settles h k
    refine ⟨i, hi, fun k e t he ht => ?_⟩
    obtain ⟨u, hu, rfl⟩ := Option.map_eq_some_iff.mp ht
    exact hargs _ (mem_argPairs he hu)

theorem assignsAt_of_constructs {span : Span} {d : DeclId} {gs : Generics} {declared : List (String × Ty)}
    {fs : List FieldInit} (k : (F.account c tested good).ConstructsStruct ⟨s.id, σ, none⟩ span d gs declared
      (fs.map fun f => (f.name, f.value)) t ⟨s.id, σ, F.instOf s.id⟩) :
    F.AssignsAt s gs fun subst => ∀ f ∈ fs, ∀ t, declared.lookup f.name = some t →
      F.Assigns c f.value (subst t) := by
  have hmem {f : FieldInit} (hf : f ∈ fs) {t : Ty} (ht : declared.lookup f.name = some t) :
      (f.value, t) ∈ fieldPairs declared (fs.map fun f => (f.name, f.value)) :=
    List.mem_filterMap.mpr ⟨_, List.mem_map_of_mem hf, by simp [ht]⟩
  unfold Account.ConstructsStruct at k
  unfold AssignsAt
  split at k
  · next hempty =>
    rw [if_pos hempty]
    have haccepts := k.2.resolve_left (not_failed h)
    exact fun f hf t ht => assigns_of_accepts h (haccepts _ (hmem hf ht))
  · next hempty =>
    rw [if_neg hempty]
    obtain ⟨i, hi, hargs⟩ := instantiates_of_settles h k
    exact ⟨i, hi, fun f hf t ht => hargs _ (hmem hf ht)⟩

theorem respectsCall_of_calls {f : String} {es : List Expr}
    (k : (F.account c tested good).Calls ⟨s.id, σ, none⟩ s.span f es t ⟨s.id, σ, F.instOf s.id⟩) :
    F.RespectsCall c σ s f es := by
  unfold Account.Calls at k
  unfold RespectsCall
  cases hl : σ.lookup f with
  | some l =>
    simp only [hl] at k
    obtain ⟨-, u, hshows, hcalled⟩ := k
    exact assignsAll_of_calledAs h (hshows True.intro) hcalled
  | none =>
    simp only [hl] at k
    exact fun sig hsig => assignsAt_of_callsFunction h (k sig hsig)

theorem respects_of_spec (hs : n.site? = some s)
    (k : (F.account c tested good).Spec ⟨s.id, σ, none⟩ n t ⟨s.id, σ, F.instOf s.id⟩) : F.Respects c σ n := by
  cases n
  case call =>
    cases hs
    exact respectsCall_of_calls h k
  case construct =>
    cases hs
    exact fun d info declared is hd hinfo hkind => assignsAt_of_constructs h (k hd hinfo hkind)
  case method =>
    exact fun u m hu hm =>
      assignsAll_of_passes h ((k True.intro u m hu hm).resolve_left (not_failed h))
  case ret => exact fun hpresent => assigns_of_accepts h (k hpresent)
  case block =>
    intro span x m w e hmem
    have haccepts : (F.account c tested good).Accepts e (c.writtenType w) := k hmem
    exact assigns_of_accepts h haccepts
  all_goals exact True.intro

end

theorem settled_of_settles {gs : Generics} {args : List (Expr × Ty)} {f : Instantiation → Ty}
    (hgood : ∀ u, good u → u.VarFree)
    (k : (F.account c tested good).Settles ⟨s.id, σ, none⟩ s.span gs args f t ⟨s.id, σ, F.instOf s.id⟩) :
    F.Settled c s gs f t := by
  rcases k with ⟨i, hi, hinst, rfl⟩ | ⟨hinst, rfl, hreported⟩
  · exact .inl ⟨i, hi, hinst.solves, fun u hu => hgood u (hinst.holds.arg u hu), rfl⟩
  · exact .inr ⟨hinst, rfl, hreported⟩

theorem resolves_of_spec (hgood : ∀ u, good u → u.VarFree)
    (hs : n.site? = some s)
    (k : (F.account c tested good).Spec ⟨s.id, σ, none⟩ n t ⟨s.id, σ, F.instOf s.id⟩) : F.Resolves c σ n t := by
  cases n
  case call _ f gs as =>
    cases hs
    intro hl sig hsig hne
    have hcalls : (F.account c tested good).Calls ⟨s.id, σ, none⟩ s.span f as t ⟨s.id, σ, F.instOf s.id⟩ := k
    simp only [Account.Calls, hl] at hcalls
    have hfunction := hcalls sig hsig
    unfold Account.CallsFunction at hfunction
    rw [if_neg (by simpa using hne)] at hfunction
    exact settled_of_settles hgood hfunction
  case construct =>
    cases hs
    intro d info declared is hd hinfo hkind hne
    have hstruct := k hd hinfo hkind
    unfold Account.ConstructsStruct at hstruct
    rw [if_neg (by simpa using hne)] at hstruct
    exact settled_of_settles hgood hstruct
  all_goals exact True.intro

end Findings

structure CheckResult.Visits (res : CheckResult) (c : BodyContext) (j : BodyJob) (σ : Scope) (n : Expr)
    (s : Site) (t : Ty) : Prop where
  within : c.Within res.findings.exprType j.scope j.body σ n
  site : n.site? = some s
  type : res.findings.typeOf s.id = some t

namespace Module

theorem respects_check (m : Module) (config : CheckConfig) (h : (m.check config).errors = [])
    {j : BodyJob} (hj : j ∈ BodyJob.ofModule (m.check config).registry m.number.1) :
    let c := j.context (m.check config).registry config.policy
    (∀ σ n s t, (m.check config).Visits c j σ n s t → (m.check config).findings.Respects c σ n) ∧
      (j.ret ≠ .unit → (m.check config).findings.Assigns c j.body j.ret) := by
  intro c
  obtain ⟨s, hs⟩ := BodyJob.exists_run m.number.1.registered.registry config.policy
    m.number.1.registered.nextVar hj
  have L : BodyLaws c (fun _ => True) := ⟨TypeLaws.trivial c, fun _ _ _ => True.intro⟩
  have hchecked := checked_check (fun _ => True) hs (.inr h) L (fun _ => True.intro)
    (fun _ _ => True.intro) (fun _ _ => True.intro) (.inr True.intro)
  refine ⟨fun σ n s t hn => ?_, fun hret => Findings.assigns_of_accepts h (hchecked.returns hret)⟩
  exact Findings.respects_of_spec h hn.site (hchecked.meets σ n s t hn.within hn.site hn.type)

def callsGeneric : Module where
  functions := [
    ⟨"main", [], [], false, some (.named "i32" []), .call {} "same" [] [.int {} 1], {}⟩,
    ⟨"same", [⟨"T", .type [] none, {}⟩], [⟨"x", .named "T" [], false, {}⟩], false, some (.named "T" []),
      .ident {} "x", {}⟩]

theorem visits_callsGeneric : ∃ j ∈ BodyJob.ofModule (callsGeneric.check {}).registry callsGeneric.number.1,
    (callsGeneric.check {}).Visits (j.context (callsGeneric.check {}).registry .recover) j j.scope j.body
      ⟨1, {}⟩ (.prim .i32) := by
  have hsite : (BodyJob.ofModule (callsGeneric.check {}).registry callsGeneric.number.1).head?.bind
      (·.body.site?) = some ⟨1, {}⟩ := by decide +kernel
  obtain ⟨j, hj, hs⟩ := Option.bind_eq_some_iff.mp hsite
  exact ⟨j, List.mem_of_head? hj, .here _ _, hs, by decide +kernel⟩

theorem respects_callsGeneric : (callsGeneric.check {}).errors = [] ∧
    ∃ j ∈ BodyJob.ofModule (callsGeneric.check {}).registry callsGeneric.number.1,
      (callsGeneric.check {}).findings.Respects (j.context (callsGeneric.check {}).registry .recover)
        j.scope j.body := by
  have h : (callsGeneric.check {}).errors = [] := by decide +kernel
  obtain ⟨j, hj, hn⟩ := visits_callsGeneric
  exact ⟨h, j, hj, (respects_check callsGeneric {} h hj).1 _ _ _ _ hn⟩

theorem resolves_check (m : Module) (config : CheckConfig) (h : config.policy = .recover)
    {j : BodyJob} (hj : j ∈ BodyJob.ofModule (m.check config).registry m.number.1) {σ : Scope} {n : Expr}
    {s : Site} {t : Ty}
    (hn : (m.check config).Visits (j.context (m.check config).registry config.policy) j σ n s t) :
    (m.check config).findings.Resolves (j.context (m.check config).registry config.policy) σ n t := by
  obtain ⟨o, hreg⟩ := m.number.1.sound_registered
  obtain ⟨b, hb⟩ := BodyJob.exists_run m.number.1.registered.registry config.policy
    m.number.1.registered.nextVar hj
  have hholds := BodyJob.holds_ofModule hreg.registry.supplies m.number.1 j hj
  have L : BodyLaws (j.context (m.check config).registry config.policy)
      (o.Typed m.number.1.InOrder j.generics.tys) :=
    ⟨hreg.registry.laws hholds.ret, fun _ _ _ => Outline.typed_error⟩
  have hchecked := checked_check (fun _ => True) hb (.inl h) L (fun _ => Outline.typed_error)
    hholds.param (fun _ _ => True.intro) (.inr Outline.typed_error)
  exact Findings.resolves_of_spec (fun _ ht => Outline.varFree_of_wellFormed ht.wellFormed) hn.site
    (hchecked.meets σ n s t hn.within hn.site hn.type)

theorem resolves_callsGeneric : ∃ j ∈ BodyJob.ofModule (callsGeneric.check {}).registry callsGeneric.number.1,
    (callsGeneric.check {}).findings.Resolves (j.context (callsGeneric.check {}).registry .recover) j.scope
      j.body (.prim .i32) := by
  obtain ⟨j, hj, hn⟩ := visits_callsGeneric
  exact ⟨j, hj, resolves_check callsGeneric {} rfl hj hn⟩

end Module

end TypeFlow
