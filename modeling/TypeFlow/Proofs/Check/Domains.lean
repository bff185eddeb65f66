import TypeFlow.Proofs.Check.Stored

namespace TypeFlow

namespace Ty

variable {gs hs : Generics} {t u a : Ty} {args : List Ty}

def InDomain (t a : Ty) : Prop := ∀ v, a = .const v → v.inDomain t = true

def Meets (gs : Generics) (t : Ty) : Ty → Prop
  | .const v => v.inDomain t = true
  | .param _ i => ∃ g u, gs[i]? = some g ∧ g.constType = some u ∧
      ∀ v : ConstValue, v.inDomain u = true → v.inDomain t = true
  | _ => False

theorem Meets.inDomain (h : Meets gs t a) : InDomain t a := by
  rintro v rfl
  exact h

theorem Meets.mono (h : Meets gs t a) (hgs : ∀ {i : Nat} {g}, gs[i]? = some g → hs[i]? = some g) :
    Meets hs t a := by
  cases a with
  | const v => exact h
  | param x i =>
    obtain ⟨g, u, hg, hu, hsub⟩ := h
    exact ⟨g, u, hgs hg, hu, hsub⟩
  | _ => exact h.elim

theorem Meets.widen (h : Meets gs u a) (hsub : ∀ v : ConstValue, v.inDomain u = true → v.inDomain t = true) :
    Meets gs t a := by
  cases a with
  | const v => exact hsub v h
  | param x i =>
    obtain ⟨g, w, hg, hw, hsub'⟩ := h
    exact ⟨g, w, hg, hw, fun v hv => hsub v (hsub' v hv)⟩
  | _ => exact h.elim

theorem substParams_const (args : List Ty) (v : ConstValue) : (Ty.const v).substParams args = .const v :=
  substParams_of_not_hasParam rfl args

theorem Meets.substParams (h : Meets gs t a) (hlength : gs.length ≤ args.length)
    (hargs : ∀ {k : Nat} {g u b}, gs[k]? = some g → g.constType = some u → args[k]? = some b → Meets hs u b) :
    Meets hs t (a.substParams args) := by
  cases a with
  | const v => rwa [substParams_const]
  | param x i =>
    obtain ⟨g, u, hg, hu, hsub⟩ := h
    have hlt := (List.getElem?_eq_some_iff.mp hg).1
    have harg := List.getElem?_eq_getElem (Nat.lt_of_lt_of_le hlt hlength)
    rw [substParams_param, harg]
    exact (hargs hg hu harg).widen hsub
  | _ => exact h.elim

theorem Meets.inDomain_substParams (h : Meets gs t a) (hargs : gs.InDomains args) :
    InDomain t (a.substParams args) := by
  intro v hv
  cases a with
  | const w =>
    rw [substParams_const] at hv
    cases hv
    exact h
  | param x i =>
    obtain ⟨g, u, hg, hu, hsub⟩ := h
    rw [substParams_param] at hv
    cases harg : args[i]? with
    | none =>
      rw [harg] at hv
      cases hv
    | some b =>
      rw [harg] at hv
      obtain rfl : b = .const v := hv
      exact hsub v (hargs hg hu harg)
  | _ => exact h.elim

end Ty

namespace Registry

def genericsOf (r : Registry) (d : DeclId) : Generics := ((r.decl? d).map (·.generics)).getD []

def Permits (r : Registry) (rule : Ty → Ty → Prop) (d : DeclId) (k : Nat) (a : Ty) : Prop :=
  ∀ {g t}, (r.genericsOf d)[k]? = some g → g.constType = some t → rule t a

def Obeys (r : Registry) (rule : Ty → Ty → Prop) : Ty → Prop
  | .named d args | .interface d args => ∀ {k a}, args[k]? = some a → r.Permits rule d k a
  | _ => True

def Fixes (r : Registry) (gs : Generics) (t : Ty) : Prop := t.Everywhere (r.Obeys (Ty.Meets gs))

def InDomains (r : Registry) (t : Ty) : Prop := t.Everywhere (r.Obeys Ty.InDomain)

variable {r R : Registry} {rule rule' : Ty → Ty → Prop} {gs hs : Generics} {t : Ty} {args : List Ty}

theorem Obeys.imp (h : r.Obeys rule t) (k : ∀ u a, rule u a → rule' u a) : r.Obeys rule' t := by
  cases t <;> first | exact fun ha _ _ hg hu => k _ _ (h ha hg hu) | exact True.intro

theorem closed_obeys : Ty.Closed (Ty.Everywhere (r.Obeys rule)) where
  part h k := h.part k
  build {t} h k := .intro (by cases t <;> first | exact True.intro | cases h) k

theorem Fixes.inDomains (h : r.Fixes gs t) : r.InDomains t := h.imp fun _ hu => hu.imp fun _ _ ha => ha.inDomain

theorem Fixes.mono (h : r.Fixes gs t) (hgs : ∀ {i : Nat} {g}, gs[i]? = some g → hs[i]? = some g) :
    r.Fixes hs t := h.imp fun _ hu => hu.imp fun _ _ ha => ha.mono hgs

theorem Fixes.of_nil (h : r.Fixes [] t) : r.Fixes gs t := h.mono nofun

theorem fixes_error : r.Fixes gs .error := .intro True.intro (List.forall_mem_nil _)

theorem inDomains_error : r.InDomains .error := .intro True.intro (List.forall_mem_nil _)

theorem obeys_substParams (h : t.Everywhere (r.Obeys rule)) (hrule : ∀ u a, rule u a → rule' u (a.substParams args))
    (ha : ∀ a ∈ args, a.Everywhere (r.Obeys rule')) : (t.substParams args).Everywhere (r.Obeys rule') := by
  have hskip {u : Ty} (hu : r.Obeys rule u)
      (hsame : ∀ v ∈ u.parts, v.substParams args = v) : r.Obeys rule' u := by
    cases u with
    | named d as | interface d as =>
      intro k a hk g v hg hv
      have hgood := hrule v a (hu hk hg hv)
      rwa [hsame a (List.mem_of_getElem? hk)] at hgood
    | _ => exact True.intro
  by_cases hempty : args.isEmpty = true
  · have hid (v : Ty) : v.substParams args = v := if_pos hempty
    rw [hid]
    exact h.imp fun u hu => hskip hu fun v _ => hid v
  have hsubst (v : Ty) : v.substParams args = v.replace { hasParam := true } (Ty.paramLeaf args) := if_neg hempty
  have hnode {d : DeclId} {as : List Ty} (hu : ∀ {k a}, as[k]? = some a → r.Permits rule d k a) {k : Nat} {b : Ty}
      (hk : (Ty.replaceAll { hasParam := true } (Ty.paramLeaf args) as)[k]? = some b) : r.Permits rule' d k b := by
    intro g v hg hv
    rw [Ty.replaceAll_eq_map, List.getElem?_map] at hk
    obtain ⟨a, ha, rfl⟩ := Option.map_eq_some_iff.mp hk
    have hgood := hrule v a (hu ha hg hv)
    rwa [hsubst] at hgood
  rw [hsubst]
  refine h.replace closed_obeys (fun u hu _ hparts => hskip hu (by simp [hparts])) (fun d as hu _ => hnode hu)
    (fun d as hu _ => hnode hu) (fun u hu hmeets => hskip hu fun v hv => ?_) fun u v hv => ?_
  · have hnone : v.flags.meets { hasParam := true } = false :=
      Bool.eq_false_iff.mpr fun hv' => Bool.eq_false_iff.mp hmeets (Ty.meets_flags_of_part hv hv')
    exact Ty.substParams_of_not_hasParam (by simpa [TypeFlags.meets] using hnone) args
  · cases u <;> simp only [Ty.paramLeaf, reduceCtorEq] at hv
    exact ha v (List.mem_of_getElem? hv)

theorem Fixes.substParams (h : r.Fixes gs t) (hlength : gs.length ≤ args.length)
    (hargs : ∀ {k : Nat} {g u b}, gs[k]? = some g → g.constType = some u → args[k]? = some b → Ty.Meets hs u b)
    (ha : ∀ a ∈ args, r.Fixes hs a) : r.Fixes hs (t.substParams args) :=
  obeys_substParams h (fun _ _ hu => hu.substParams hlength hargs) ha

theorem Fixes.inDomains_substParams (h : r.Fixes gs t) (hin : gs.InDomains args) (ha : ∀ a ∈ args, r.InDomains a) :
    r.InDomains (t.substParams args) := obeys_substParams h (fun _ _ hu => hu.inDomain_substParams hin) ha

theorem Fixes.applies (h : r.Fixes gs t) : t.Applies r.InDomains gs :=
  fun _ _ ha hin => h.inDomains_substParams hin ha

theorem InDomains.of_args {d : DeclId} (h : r.InDomains (.named d args) ∨ r.InDomains (.interface d args)) :
    (r.genericsOf d).InDomains args ∧ ∀ a ∈ args, r.InDomains a := by
  rcases h with h | h
  all_goals exact ⟨fun hg ht ha => h.node ha hg ht _ rfl, fun a ha => h.part ha⟩

def genericsNamed (R : Registry) (x : String) : Generics := ((R.declNamed x).map R.genericsOf).getD []

def constArgs (R : Registry) (scope : Generics) (x : String) (ws : List Written) : List (Ty × Ty) :=
  ((R.genericsNamed x).zip ws).filterMap fun e => do return (← e.1.constType, ← R.constArg scope e.2)

def SuitsIn (R : Registry) (known scope : Generics) (w : Written) : Prop :=
  ∀ q ∈ w.applied, ∀ c ∈ R.constArgs scope q.1 q.2, Ty.Meets known c.1 c.2

theorem genericsNamed_of_typeDef {x : String} {d : DeclId} (h : R.typeDef x = some (.decl d)) :
    R.genericsNamed x = R.genericsOf d := by
  rw [genericsNamed, declNamed, h]
  rfl

theorem typeDef_of_declNamed {x : String} {d : DeclId} (h : R.declNamed x = some d) :
    R.typeDef x = some (.decl d) := by
  unfold declNamed at h
  split at h
  · next hd =>
    cases h
    exact hd
  · cases h

theorem mem_constArgs {x : String} {ws : List Written} {scope : Generics} {d : DeclId} {k : Nat} {g : GenericParam}
    {t a : Ty} {w : Written} (hx : R.typeDef x = some (.decl d)) (hg : (R.genericsOf d)[k]? = some g)
    (ht : g.constType = some t) (hw : ws[k]? = some w) (ha : R.constArg scope w = some a) :
    (t, a) ∈ R.constArgs scope x ws := by
  rw [← genericsNamed_of_typeDef hx] at hg
  have hzip : (g, w) ∈ (R.genericsNamed x).zip ws :=
    List.mem_of_getElem? (List.getElem?_zip_eq_some.mpr ⟨hg, hw⟩)
  exact List.mem_filterMap.mpr ⟨(g, w), hzip, by simp [ht, ha]⟩

theorem suitsIn_plain (R : Registry) (known scope : Generics) (x : String) : R.SuitsIn known scope (.named x []) := by
  refine List.forall_mem_singleton.mpr fun c hc => ?_
  rw [constArgs, List.zip_nil_right] at hc
  cases hc

structure Precedes (r R : Registry) : Prop where
  declared : ∀ {x d}, r.typeDef x = some (.decl d) → R.typeDef x = some (.decl d)
  forms : ∀ d, (r.genericsOf d).forms = (R.genericsOf d).forms
  constant : ∀ {x info}, r.constant x = some info → R.constant x = some info

theorem genericsOf_of_decl? {d : DeclId} {info : DeclInfo} (h : r.decl? d = some info) :
    r.genericsOf d = info.generics := by
  rw [genericsOf, h]
  rfl

end Registry

theorem Generics.constParam_of_forms {gs hs : Generics} (h : gs.forms = hs.forms) (x : String) :
    ((gs.find x).filter (·.isConst)).map (·.ty) = ((hs.find x).filter (·.isConst)).map (·.ty) := by
  have hfind (gs : Generics) : ((gs.find x).filter (·.isConst)).map (·.ty) =
      ((gs.forms.find? (·.1 == x)).filter (·.2.2)).map fun f => .param f.1 f.2.1 := by
    rw [find, forms, List.find?_map]
    cases hp : List.find? (·.name == x) gs with
    | none => simp [GenericParam.form, Function.comp_def, hp]
    | some p => cases hc : p.isConst <;>
      simp [GenericParam.form, GenericParam.ty, Function.comp_def, hp, hc, Option.filter_some]
  rw [hfind, hfind, h]

theorem Generics.getElem?_of_forms {gs hs : Generics} (h : gs.forms = hs.forms) {k : Nat} {g : GenericParam}
    (hg : gs[k]? = some g) : ∃ p, hs[k]? = some p ∧ p.form = g.form := by
  have hform : hs.forms[k]? = some g.form := by
    rw [← h, forms, List.getElem?_map, hg]
    rfl
  rw [forms, List.getElem?_map] at hform
  exact Option.map_eq_some_iff.mp hform

namespace Registry

variable {r R : Registry} {scope gs known : Generics}

theorem constArg_eq_or (r : Registry) (scope : Generics) {w : Written} {x : String} (hx : w.bareName = some x) :
    r.constArg scope w = (((scope.find x).filter (·.isConst)).map (·.ty)).or
      ((r.constant x).bind fun c => c.value.map Ty.const) := by
  unfold constArg
  rw [hx]
  dsimp only
  cases (scope.find x).filter (·.isConst) <;> rfl

theorem constArg_of_precedes (hr : r.Precedes R) (hscope : scope.forms = gs.forms) {w : Written} {a : Ty}
    (h : r.constArg scope w = some a) : R.constArg gs w = some a := by
  cases hx : w.bareName with
  | none =>
    unfold constArg at h
    rw [hx] at h
    cases h
  | some x =>
    rw [constArg_eq_or _ _ hx] at h ⊢
    rw [← Generics.constParam_of_forms hscope]
    refine Option.or_eq_some_iff.mpr ((Option.or_eq_some_iff.mp h).imp_right (.imp_right fun hvalue => ?_))
    obtain ⟨info, hinfo, hvalue⟩ := Option.bind_eq_some_iff.mp hvalue
    exact Option.bind_eq_some_iff.mpr ⟨info, hr.constant hinfo, hvalue⟩

def FixesParams (R : Registry) (known gs : Generics) : Prop :=
  ∀ (k : Nat) (q : GenericParam), gs[k]? = some q → q.All (R.Fixes known) (R.Fixes (known.take k)) (R.Fixes known)

theorem resolveLaws_fixes {fits : String → List Written → Prop}
    (hforms : ∀ d, (r.genericsOf d).forms = (R.genericsOf d).forms)
    (haliased : ∀ e ∈ r.types, ∀ t, e.2 = .alias t → R.Fixes [] t)
    (hparams : ∀ d, R.FixesParams (R.genericsOf d) (r.genericsOf d))
    (hconst : ∀ {x ws d} {k : Nat} {w a}, fits x ws → r.typeDef x = some (.decl d) → ws[k]? = some w →
      r.constArg scope w = some a → R.Permits (Ty.Meets known) d k a) :
    ResolveLaws r scope (R.Obeys (Ty.Meets known)) (R.Permits (Ty.Meets known)) fits where
  closed := closed_obeys
  param _ _ := True.intro
  instantiate {d info args} _ _ hargs := by
    unfold DeclInfo.instantiate
    split <;> exact hargs
  aliased e he t ht := (haliased e he t ht).of_nil
  default {d info k g t args} hd hg ht hlength ha hmay := by
    rw [← genericsOf_of_decl? hd] at hg
    refine ((hparams d k g hg).default t ht).substParams ?_ (fun hg hu hb => hmay hb ?_ hu) ha
    · rw [hlength]
      exact List.length_take_le _ _
    · rw [List.getElem?_take] at hg
      split at hg
      · exact hg
      · cases hg
  type {d info k g a} hd hg hplain := by
    intro p t hp ht
    rw [← genericsOf_of_decl? hd] at hg
    obtain ⟨q, hq, hform⟩ := Generics.getElem?_of_forms (hforms d) hg
    cases hq.symm.trans hp
    have hkind : p.isConst = g.isConst := congrArg (·.2.2) hform
    rw [hplain, GenericParam.isConst_of_constType ht] at hkind
    cases hkind
  const hfits hx _ hw ha := hconst hfits hx hw ha

structure Stocks (R r : Registry) : Prop where
  aliased : ∀ e ∈ r.types, ∀ t, e.2 = .alias t → R.Fixes [] t
  generic : ∀ d, R.FixesParams (R.genericsOf d) (r.genericsOf d)
  kind : ∀ {d info}, r.decl? d = some info → ∀ t ∈ info.kind.types, R.Fixes (R.genericsOf d) t
  function : ∀ sig ∈ r.functions, R.FixesParams sig.generics sig.generics ∧ sig.All (R.Fixes sig.generics)
  method : ∀ m ∈ r.methods, m.sig.generics = [] ∧ m.sig.All (R.Fixes (R.genericsOf m.receiver))
  constant : ∀ e ∈ r.consts, R.InDomains e.2.ty

theorem FixesParams.holds (h : R.FixesParams gs gs) : gs.Holds R.InDomains where
  default hg ht := ((h _ _ hg).default _ ht).applies
  constType g hg t ht := by
    obtain ⟨k, hk⟩ := List.getElem?_of_mem hg
    exact ((h k g hk).constType t ht).inDomains

namespace Stocks

theorem resolve (h : R.Stocks r) (hr : r.Precedes R) (hscope : scope.forms = gs.forms) {w : Written}
    (hw : R.SuitsIn known gs w) {t : Ty} (ht : r.resolve scope w = .ok t) : R.Fixes known t := by
  let fits (x : String) (ws : List Written) : Prop := ∀ c ∈ R.constArgs gs x ws, Ty.Meets known c.1 c.2
  have L : ResolveLaws r scope (R.Obeys (Ty.Meets known)) (R.Permits (Ty.Meets known)) fits :=
    resolveLaws_fixes hr.forms h.aliased h.generic fun hfits hx hv ha g u hg hu =>
      hfits _ (mem_constArgs (hr.declared hx) hg hu hv (constArg_of_precedes hr hscope ha))
  exact L.resolve w hw ht

theorem resolve_of_consts (h : R.Stocks r) (hr : r.Precedes R) (hconsts : r.consts = []) {w : Written} {t : Ty}
    (ht : r.resolve [] w = .ok t) : R.Fixes [] t := by
  have L : ResolveLaws r [] (R.Obeys (Ty.Meets [])) (R.Permits (Ty.Meets [])) fun _ _ => True := by
    refine resolveLaws_fixes hr.forms h.aliased h.generic fun {x ws d k v a} _ _ _ ha => ?_
    cases hx : v.bareName with
    | none => simp [constArg, hx] at ha
    | some x =>
      have hnone : r.constant x = none := by
        rw [Registry.constant, hconsts]
        rfl
      simp [constArg_eq_or _ _ hx, Generics.find, hnone] at ha
  exact L.resolve w (fun _ _ => True.intro) ht

theorem laws {c : BodyContext} (h : R.Stocks c.registry) (hr : c.registry.Precedes R)
    (hgenerics : c.registry.genericsOf = R.genericsOf) (hret : R.InDomains c.returnType) :
    TypeLaws c R.InDomains (R.SuitsIn c.generics c.generics) where
  toClosed := closed_obeys
  resolve hw ht := (h.resolve hr rfl hw ht).inDomains
  enum _ := .intro (fun ha => nomatch ha) nofun
  struct {d info fs is args} hd _ _ ha hin := by
    rw [← genericsOf_of_decl? hd, hgenerics] at hin
    refine .intro (fun {k a} hk {g t} hg ht v hv => ?_) ha
    subst hv
    exact hin hg ht hk
  field {d fs is e args} hk hmem hself := by
    obtain ⟨info, hinfo, hk⟩ := decl?_of_kind? hk
    obtain ⟨hin, ha⟩ := InDomains.of_args (.inl hself)
    refine (h.kind hinfo e.2 ?_).inDomains_substParams hin ha
    simp [hk, DeclKind.types, List.mem_map_of_mem hmem]
  listed hd ht hself := by
    obtain ⟨hin, ha⟩ := InDomains.of_args (.inl hself)
    exact (h.kind hd _ (DeclInfo.mem_types_of_implements ht)).inDomains_substParams hin ha
  generic {d info} hd := by
    have hparams : R.FixesParams (R.genericsOf d) (c.registry.genericsOf d) := h.generic d
    rw [← hgenerics, genericsOf_of_decl? hd] at hparams
    exact hparams.holds
  members {t ms m} ht hms hm := by
    rcases mem_exhaustiveMembers hms hm with hpart | ⟨d, rfl⟩
    · exact ht.part hpart
    · exact .intro (fun ha => nomatch ha) nofun
  constant hx := h.constant _ (mem_of_lookup hx)
  function {f sig} hf := by
    obtain ⟨hparams, hsig⟩ := h.function _ (List.mem_of_find?_eq_some hf)
    exact ⟨⟨fun q hq => (hsig.param q hq).applies, hsig.ret.applies⟩, hparams.holds⟩
  method {m args} hm hself := by
    obtain ⟨hin, ha⟩ := InDomains.of_args hself
    have hsig := (h.method m hm).2
    exact ⟨fun q hq => (hsig.param q hq).inDomains_substParams hin ha, hsig.ret.inDomains_substParams hin ha⟩
  ret := hret
  untyped t ht := by
    cases t
    case untypedNone | untypedNil => exact .leaf True.intro rfl
    all_goals cases ht

end Stocks

end Registry

end TypeFlow
