import TypeFlow.Proofs.Decl.Outline
import TypeFlow.Proofs.Infer.Solving

namespace TypeFlow

structure Generics.Sound (p : Prop) (o : Outline) (gs : Generics) : Prop where
  positioned : Ty.Positioned gs.tys
  default : ∀ {k : Nat} {g : GenericParam} {t : Ty}, gs[k]? = some g → g.default = some t →
    o.Typed p (gs.tys.take k) t
  constType : ∀ g ∈ gs, ∀ t, g.constType = some t → o.Typed p [] t

structure DeclInfo.Sound (p : Prop) (o : Outline) (d : DeclInfo) : Prop where
  generic : d.generics.Sound p o
  field : ∀ {fs is}, d.kind = .struct fs is → ∀ e ∈ fs, o.Typed p d.generics.tys e.2
  listed : ∀ t ∈ d.implements, o.Typed p d.generics.tys t
  implementor : ∀ {b is}, d.kind = .interface b is →
    ∀ i ∈ is, ∃ s, o[i]? = some s ∧ s.form ≠ .interface

def Registry.Listed (r : Registry) (d : DeclId) (t : Ty) : Prop :=
  ∃ i args ds, t = .interface i args ∧ r.implementors i = some ds ∧ d ∈ ds

structure Registry.Sound (p : Prop) (o : Outline) (r : Registry) : Prop where
  outline : r.outline = o
  enums : ∀ s ∈ o, s.form = .enum → s.params = []
  decl : ∀ d ∈ r.decls, d.Sound p o
  listed : ∀ {d info t}, r.decl? d = some info → t ∈ info.implements → r.Listed d t
  aliased : ∀ e ∈ r.types, ∀ t, e.2 = .alias t → o.Typed p [] t
  function : ∀ sig ∈ r.functions, sig.All (o.Typed p sig.generics.tys) ∧ sig.generics.Sound p o
  method : ∀ m ∈ r.methods, ∀ s, o[m.receiver]? = some s → m.sig.All (o.Typed p s.params)
  constant : ∀ e ∈ r.consts, o.Typed p [] e.2.ty

namespace Written

mutual

def applied : Written → List (String × List Written)
  | named x ws => (x, ws) :: appliedAll ws
  | pointer _ w | reference _ w | fixedArray _ w | dynArray w | option w | channel w => applied w
  | map w v | result w v => applied w ++ applied v
  | tuple ws | union ws => appliedAll ws
  | function ws _ w => appliedAll ws ++ applied w
  | never => []

def appliedAll : List Written → List (String × List Written)
  | [] => []
  | w :: ws => applied w ++ appliedAll ws

end

end Written

structure ResolveLaws (r : Registry) (scope : Generics) (P : Ty → Prop)
    (may : DeclId → Nat → Ty → Prop := fun _ _ _ => True)
    (fits : String → List Written → Prop := fun _ _ => True) : Prop where
  closed : Ty.Closed (Ty.Everywhere P)
  param : ∀ g ∈ scope, P g.ty
  instantiate : ∀ {d info args}, r.decl? d = some info → args.length = info.generics.length →
    (∀ {k a}, args[k]? = some a → may d k a) → P (info.instantiate d args)
  aliased : ∀ e ∈ r.types, ∀ t, e.2 = .alias t → t.Everywhere P
  default : ∀ {d info} {k : Nat} {g : GenericParam} {t args}, r.decl? d = some info →
    info.generics[k]? = some g → g.default = some t → args.length = k → (∀ a ∈ args, a.Everywhere P) →
      (∀ {j a}, args[j]? = some a → may d j a) → (t.substParams args).Everywhere P
  type : ∀ {d info} {k : Nat} {g : GenericParam} {a}, r.decl? d = some info → info.generics[k]? = some g →
    g.isConst = false → may d k a
  const : ∀ {x ws d info} {k : Nat} {w a}, fits x ws → r.typeDef x = some (.decl d) →
    r.decl? d = some info → ws[k]? = some w → r.constArg scope w = some a → may d k a

theorem DeclInfo.parts_instantiate (info : DeclInfo) (d : DeclId) (args : List Ty) :
    (info.instantiate d args).parts = args := by
  unfold instantiate
  split <;> rfl

theorem GenericParam.isConst_of_default {g : GenericParam} {t : Ty} (h : g.default = some t) :
    g.isConst = false := by
  unfold default at h
  split at h
  · next hk => simp [isConst, hk]
  · cases h

structure Arguments (P : Ty → Prop) (may : Nat → Ty → Prop) (n : Nat) (args : List Ty) : Prop where
  length : args.length = n
  arg : ∀ a ∈ args, a.Everywhere P
  may : ∀ {k a}, args[k]? = some a → may k a

namespace Arguments

variable {P : Ty → Prop} {may : Nat → Ty → Prop}

theorem nil : Arguments P may 0 [] := ⟨rfl, nofun, fun h => nomatch h⟩

theorem concat {n : Nat} {args : List Ty} {t : Ty} (h : Arguments P may n args) (ht : t.Everywhere P)
    (hmay : may n t) : Arguments P may (n + 1) (args ++ [t]) := by
  refine ⟨by rw [List.length_append, h.length]; rfl,
    List.forall_mem_append.mpr ⟨h.arg, List.forall_mem_singleton.mpr ht⟩, fun {k a} ha => ?_⟩
  rw [List.getElem?_append] at ha
  split at ha
  · exact h.may ha
  · next hge =>
    obtain ⟨hlt, rfl⟩ := List.getElem?_eq_some_iff.mp ha
    rw [List.length_singleton] at hlt
    have hk : k = n := by have := h.length; omega
    subst hk
    simpa using hmay

end Arguments

namespace ResolveLaws

open Registry

variable {r : Registry} {scope : Generics} {P : Ty → Prop} {may : DeclId → Nat → Ty → Prop}
  {fits : String → List Written → Prop} (L : ResolveLaws r scope P may fits)

omit L in
theorem nullary {x : String} {n : Nat} {t u : Ty} (ht : t.Everywhere P) (h : Registry.nullary x n t = .ok u) :
    u.Everywhere P := by
  unfold Registry.nullary at h
  split at h
  · cases h
    exact ht
  · cases h

include L

theorem everywhere_ty {g : GenericParam} (h : g ∈ scope) : g.ty.Everywhere P := .intro (L.param g h) nofun

theorem builtinType {x : String} {t : Ty} (h : Registry.builtinType x = some t) : t.Everywhere P := by
  unfold Registry.builtinType at h
  split at h
  · cases h
    exact L.closed.leaf rfl rfl
  · split at h
    · cases h
      exact L.closed.leaf rfl rfl
    · obtain ⟨p, -, rfl⟩ := Option.map_eq_some_iff.mp h
      exact L.closed.leaf rfl rfl

theorem constArg {w : Written} {t : Ty} (h : r.constArg scope w = some t) : t.Everywhere P := by
  unfold Registry.constArg at h
  split at h
  · cases h
  · split at h
    · next q hq =>
      cases h
      exact L.everywhere_ty (List.mem_of_find?_eq_some (Option.eq_some_of_filter_eq_some hq))
    · obtain ⟨info, -, h⟩ := Option.bind_eq_some_iff.mp h
      obtain ⟨v, -, rfl⟩ := Option.map_eq_some_iff.mp h
      exact L.closed.leaf rfl rfl

theorem fillDefaults {d : DeclId} {info : DeclInfo} (hd : r.decl? d = some info) {ps : Generics} {n : Nat}
    {done : List Ty} (hr : ps.required ≤ 0) (hps : info.generics.drop n = ps) (h : Arguments P (may d) n done) :
    Arguments P (may d) (n + ps.length) (Registry.fillDefaults ps done) := by
  induction ps generalizing n done with
  | nil => exact h
  | cons p ps ih =>
    obtain ⟨hhead, htail⟩ := of_drop_eq_cons hps
    obtain ⟨hrest, t, ht⟩ := Generics.default_of_required hr
    have hdefault := L.default hd hhead ht h.length h.arg h.may
    have hall := ih hrest htail (h.concat hdefault (L.type hd hhead (GenericParam.isConst_of_default ht)))
    have hlength : n + (p :: ps).length = n + 1 + ps.length := Nat.add_right_comm n ps.length 1
    rw [hlength, Registry.fillDefaults, ht]
    exact hall

omit L

mutual

theorem resolve (L : ResolveLaws r scope P may fits) : (w : Written) → (∀ q ∈ w.applied, fits q.1 q.2) →
    ∀ {t}, r.resolve scope w = .ok t → t.Everywhere P
  | .named x ws, hw, t, k => by
    rw [Registry.resolve] at k
    split at k
    · next hfind => exact nullary (L.everywhere_ty (List.mem_of_find?_eq_some hfind)) k
    split at k
    · next u hu => exact nullary (L.builtinType hu) k
    split at k
    · next u hu => exact nullary (L.aliased _ (mem_of_lookup hu) u rfl) k
    · next d hd =>
      split at k
      · next info hinfo =>
        split at k
        · next hcount =>
          obtain ⟨args, hargs, k⟩ := exists_of_bind_ok k
          cases k
          obtain ⟨hmin, -⟩ := Bool.and_eq_true_iff.mp hcount
          obtain ⟨hfits, hws⟩ := List.forall_mem_cons.mp hw
          have hall := resolveArgs L hd hinfo hfits ws hws rfl (of_decide_eq_true hmin) rfl .nil hargs
          rw [Nat.zero_add] at hall
          refine .intro (L.instantiate hinfo hall.length hall.may) ?_
          rw [DeclInfo.parts_instantiate]
          exact hall.arg
        · cases k
      · cases k
    · cases k
  | .pointer m w, hw, t, k | .reference m w, hw, t, k | .fixedArray m w, hw, t, k => by
    obtain ⟨u, hu, k⟩ := exists_of_bind_ok k
    cases k
    exact L.closed.single rfl rfl (resolve L w hw hu)
  | .dynArray w, hw, t, k | .option w, hw, t, k | .channel w, hw, t, k => by
    obtain ⟨u, hu, k⟩ := exists_of_bind_ok k
    cases k
    exact L.closed.single rfl rfl (resolve L w hw hu)
  | .map w w', hw, t, k | .result w w', hw, t, k => by
    obtain ⟨u, hu, k⟩ := exists_of_bind_ok k
    obtain ⟨u', hu', k⟩ := exists_of_bind_ok k
    cases k
    obtain ⟨hw, hw'⟩ := List.forall_mem_append.mp hw
    exact L.closed.pair rfl rfl (resolve L w hw hu) (resolve L w' hw' hu')
  | .tuple ws, hw, t, k => by
    obtain ⟨us, hus, k⟩ := exists_of_bind_ok k
    cases k
    exact L.closed.mkTuple (resolveAll L ws hw hus)
  | .function ws v w, hw, t, k => by
    obtain ⟨us, hus, k⟩ := exists_of_bind_ok k
    obtain ⟨u, hu, k⟩ := exists_of_bind_ok k
    cases k
    obtain ⟨hws, hw⟩ := List.forall_mem_append.mp hw
    exact L.closed.build rfl (List.forall_mem_cons.mpr ⟨resolve L w hw hu, resolveAll L ws hws hus⟩)
  | .union ws, hw, t, k => by
    obtain ⟨us, hus, k⟩ := exists_of_bind_ok k
    cases k
    exact L.closed.mkUnion (resolveAll L ws hw hus)
  | .never, _, t, k => by
    cases k
    exact L.closed.leaf rfl rfl

theorem resolveAll (L : ResolveLaws r scope P may fits) : (ws : List Written) →
    (∀ q ∈ Written.appliedAll ws, fits q.1 q.2) → ∀ {ts}, r.resolveAll scope ws = .ok ts →
      ∀ t ∈ ts, t.Everywhere P
  | [], _, ts, k => by
    cases k
    exact nofun
  | w :: ws, hw, ts, k => by
    obtain ⟨u, hu, k⟩ := exists_of_bind_ok k
    obtain ⟨us, hus, k⟩ := exists_of_bind_ok k
    cases k
    obtain ⟨hw, hws⟩ := List.forall_mem_append.mp hw
    exact List.forall_mem_cons.mpr ⟨resolve L w hw hu, resolveAll L ws hws hus⟩

theorem resolveArgs (L : ResolveLaws r scope P may fits) {x : String} {d : DeclId} {info : DeclInfo}
    {vs : List Written} (hd : r.typeDef x = some (.decl d)) (hinfo : r.decl? d = some info) (hfits : fits x vs) :
    (ws : List Written) → (∀ q ∈ Written.appliedAll ws, fits q.1 q.2) → ∀ {ps : Generics} {n done args},
      vs.drop n = ws → ps.required ≤ ws.length → info.generics.drop n = ps → Arguments P (may d) n done →
        r.resolveArgs scope x ws ps done = .ok args → Arguments P (may d) (n + ps.length) args
  | [], _, ps, n, done, args, _, hr, hps, hdone, k => by
    cases k
    exact L.fillDefaults hinfo hr hps hdone
  | w :: ws, _, [], n, done, args, _, _, _, hdone, k => by
    cases k
    exact hdone
  | w :: ws, hw, p :: ps, n, done, args, hvs, hr, hps, hdone, k => by
    have hrest := Generics.required_tail hr
    obtain ⟨hparam, hparams⟩ := of_drop_eq_cons hps
    obtain ⟨harg, hargs⟩ := of_drop_eq_cons hvs
    obtain ⟨hw, hws⟩ := List.forall_mem_append.mp hw
    have hlength : n + (p :: ps).length = n + 1 + ps.length := by simp; omega
    rw [hlength]
    rw [Registry.resolveArgs] at k
    split at k
    · split at k
      · next u hu =>
        have hmay := L.const hfits hd hinfo harg hu
        exact resolveArgs L hd hinfo hfits ws hws hargs hrest hparams (hdone.concat (L.constArg hu) hmay) k
      · cases k
    · next hconst =>
      obtain ⟨u, hu, k⟩ := exists_of_bind_ok k
      have hmay := L.type hinfo hparam (Bool.eq_false_iff.mpr hconst) (a := u)
      exact resolveArgs L hd hinfo hfits ws hws hargs hrest hparams (hdone.concat (resolve L w hw hu) hmay) k

end

end ResolveLaws

theorem Generics.Sound.substParams_default {p : Prop} {o : Outline} {gs : Generics} (h : gs.Sound p o)
    {ps args : List Ty} {k : Nat} {g : GenericParam} {t : Ty} (hg : gs[k]? = some g) (ht : g.default = some t)
    (hlength : args.length = k) (ha : ∀ a ∈ args, o.Typed p ps a) : o.Typed p ps (t.substParams args) := by
  obtain ⟨hlt, -⟩ := List.getElem?_eq_some_iff.mp hg
  refine (h.default hg ht).substParams (h.positioned.take k) ?_ ha
  rw [hlength, List.length_take, gs.length_tys, Nat.min_eq_left (Nat.le_of_lt hlt)]

theorem Generics.Sound.holds {p : Prop} {o : Outline} {gs : Generics} (h : gs.Sound p o) (ps : List Ty) :
    gs.Holds (o.Typed p ps) where
  default {k g t} hg ht args hlength ha _ := by
    obtain ⟨hlt, -⟩ := List.getElem?_eq_some_iff.mp hg
    refine h.substParams_default hg ht ?_ ha
    rw [hlength, List.length_take, Nat.min_eq_left (Nat.le_of_lt hlt)]
  constType g hg t ht := (h.constType g hg t ht).of_nil

namespace Registry

variable {p : Prop} {o : Outline} {r : Registry}

theorem sound_of_decl? (h : r.Sound p o) {d : DeclId} {info : DeclInfo} (hd : r.decl? d = some info) :
    info.Sound p o := h.decl info (List.mem_of_getElem? hd)

theorem shape_of_decl? (h : r.Sound p o) {d : DeclId} {info : DeclInfo} (hd : r.decl? d = some info) :
    o[d]? = some info.shape := h.outline ▸ getElem?_outline hd

theorem tys_generics (h : r.Sound p o) {d : DeclId} {s : DeclShape} (hs : o[d]? = some s) :
    Generics.tys (((r.decl? d).map (·.generics)).getD []) = s.params := by
  rw [← h.outline, Registry.outline, List.getElem?_map] at hs
  obtain ⟨info, hinfo, rfl⟩ := Option.map_eq_some_iff.mp hs
  rw [show r.decl? d = some info from hinfo]
  rfl

theorem admits_instantiate (h : r.Sound p o) {d : DeclId} {info : DeclInfo} {args : List Ty}
    (hd : r.decl? d = some info) (hlength : args.length = info.generics.length) :
    o.Admits (info.instantiate d args) := by
  have hshape := shape_of_decl? h hd
  have harity : args.length = info.shape.arity := hlength.trans info.arity_shape.symm
  unfold DeclInfo.instantiate
  split
  · next hi => exact ⟨_, hshape, DeclInfo.isInterface_iff.mp hi, harity⟩
  · next hi => exact ⟨_, hshape, fun hf => hi (DeclInfo.isInterface_iff.mpr hf), harity⟩

theorem knownTo_instantiate (info : DeclInfo) (d : DeclId) (args ps : List Ty) :
    (info.instantiate d args).KnownTo ps := by
  unfold DeclInfo.instantiate
  split <;> exact fun _ _ => nofun

theorem typed_instantiate (h : r.Sound p o) {d : DeclId} {info : DeclInfo} {args ps : List Ty}
    (hd : r.decl? d = some info) (hlength : args.length = info.generics.length)
    (ha : ∀ a ∈ args, o.Typed p ps a) : o.Typed p ps (info.instantiate d args) := by
  refine .intro ⟨admits_instantiate h hd hlength, fun _ => knownTo_instantiate info d args ps⟩ ?_
  rw [DeclInfo.parts_instantiate]
  exact ha

theorem Sound.resolveLaws (h : r.Sound p o) (scope : Generics) :
    ResolveLaws r scope fun u => o.Admits u ∧ (p → u.KnownTo scope.tys) where
  closed := Outline.closed_typed
  param _ hg := ⟨True.intro, fun _ _ _ _ => List.mem_map_of_mem hg⟩
  instantiate hd hlength _ := ⟨admits_instantiate h hd hlength, fun _ => knownTo_instantiate _ _ _ _⟩
  aliased e he t ht := (h.aliased e he t ht).of_nil
  default hd hg ht hlength ha _ := (sound_of_decl? h hd).generic.substParams_default hg ht hlength ha
  type _ _ _ := True.intro
  const _ _ _ _ _ := True.intro

theorem typed_resolve (h : r.Sound p o) (scope : Generics) (w : Written) {t : Ty}
    (k : r.resolve scope w = .ok t) : o.Typed p scope.tys t :=
  (h.resolveLaws scope).resolve w (fun _ _ => True.intro) k

theorem decl?_of_kind? {d : DeclId} {k : DeclKind} (h : r.kind? d = some k) :
    ∃ info, r.decl? d = some info ∧ info.kind = k := Option.map_eq_some_iff.mp h

theorem typed_named {d : DeclId} {s : DeclShape} (ps : List Ty) (hs : o[d]? = some s)
    (hform : s.form ≠ .interface) (hnil : s.params = []) : o.Typed p ps (.named d []) := by
  refine .intro ⟨⟨s, hs, hform, ?_⟩, fun _ _ _ => nofun⟩ (List.forall_mem_nil _)
  rw [DeclShape.arity, hnil]

theorem typed_plainDecl (h : r.Sound p o) {d : DeclId} {t : Ty} (ps : List Ty)
    (hd : ∃ s, o[d]? = some s ∧ s.form ≠ .interface) (ht : r.plainDecl d = some t) : o.Typed p ps t := by
  obtain ⟨s, hs, hform⟩ := hd
  unfold plainDecl at ht
  split at ht
  · next info hinfo =>
    split at ht
    · next hempty =>
      cases ht
      have heq : s = info.shape := Option.some.inj (hs.symm.trans (shape_of_decl? h hinfo))
      refine typed_named ps hs hform ?_
      rw [heq]
      exact congrArg Generics.tys (List.isEmpty_iff.mp hempty)
    · cases ht
  · cases ht

theorem typed_exhaustiveMembers (h : r.Sound p o) {t m : Ty} {ms ps : List Ty} (ht : o.Typed p ps t)
    (hms : r.exhaustiveMembers t = some ms) (hm : m ∈ ms) : o.Typed p ps m := by
  unfold exhaustiveMembers at hms
  split at hms
  · cases hms
    exact ht.part hm
  · split at hms
    · next b ds hkind =>
      obtain ⟨info, hinfo, hk⟩ := decl?_of_kind? hkind
      obtain ⟨d, hd, hmd⟩ := exists_of_mem_mapM hms hm
      exact typed_plainDecl h ps ((sound_of_decl? h hinfo).implementor hk d hd) hmd
    · cases hms
  · cases hms

theorem typed_substParams (h : r.Sound p o) {d : DeclId} {s : DeclShape} {t : Ty} {args ps : List Ty}
    (hs : o[d]? = some s) (ht : o.Typed p s.params t) (hlength : args.length = s.arity)
    (ha : ∀ a ∈ args, o.Typed p ps a) : o.Typed p ps (t.substParams args) := by
  rw [← h.outline, Registry.outline, List.getElem?_map] at hs
  obtain ⟨info, hinfo, rfl⟩ := Option.map_eq_some_iff.mp hs
  exact ht.substParams (sound_of_decl? h hinfo).generic.positioned hlength ha

theorem typed_of_named (h : r.Sound p o) {d : DeclId} {info : DeclInfo} {t : Ty} {args ps : List Ty}
    (hd : r.decl? d = some info) (ht : o.Typed p info.generics.tys t)
    (hself : o.Typed p ps (.named d args)) : o.Typed p ps (t.substParams args) := by
  obtain ⟨⟨s, hs, -, hlength⟩, -⟩ := hself.node
  cases (shape_of_decl? h hd).symm.trans hs
  exact typed_substParams h hs ht hlength fun a ha => hself.part ha

theorem Sound.laws {c : BodyContext} (h : c.registry.Sound p o)
    (hret : o.Typed p c.generics.tys c.returnType) : TypeLaws c (o.Typed p c.generics.tys) where
  toClosed := Outline.closed_typed
  resolve _ := typed_resolve h _ _
  enum hk := by
    obtain ⟨info, hinfo, hk⟩ := decl?_of_kind? hk
    have hshape := shape_of_decl? h hinfo
    have hform : info.shape.form = .enum := by simp [DeclInfo.shape, DeclKind.form, hk]
    exact typed_named _ hshape (by simp [hform]) (h.enums _ (List.mem_of_getElem? hshape) hform)
  struct hd hk hlength ha _ := by
    have := typed_instantiate h hd hlength ha
    simpa [DeclInfo.instantiate, DeclInfo.isInterface, hk] using this
  field hk hmem hself := by
    obtain ⟨info, hinfo, hk⟩ := decl?_of_kind? hk
    exact typed_of_named h hinfo ((sound_of_decl? h hinfo).field hk _ hmem) hself
  listed hd ht hself := typed_of_named h hd ((sound_of_decl? h hd).listed _ ht) hself
  generic hd := (sound_of_decl? h hd).generic.holds _
  members := typed_exhaustiveMembers h
  constant hx := (h.constant _ (mem_of_lookup hx)).of_nil
  function {f sig} hf := by
    obtain ⟨hsig, hgs⟩ := h.function _ (List.mem_of_find?_eq_some hf)
    have hlength {args : List Ty} (k : args.length = sig.generics.length) :
        args.length = sig.generics.tys.length := k.trans sig.generics.length_tys.symm
    exact ⟨⟨fun q hq args k ha _ => (hsig.param q hq).substParams hgs.positioned (hlength k) ha,
      fun args k ha _ => hsig.ret.substParams hgs.positioned (hlength k) ha⟩, hgs.holds _⟩
  method {m args} hm hself := by
    have hargs : ∃ s, o[m.receiver]? = some s ∧ args.length = s.arity ∧
        ∀ a ∈ args, o.Typed p c.generics.tys a := by
      rcases hself with hself | hself
      all_goals
        obtain ⟨⟨s, hs, -, hlength⟩, -⟩ := hself.node
        exact ⟨s, hs, hlength, fun a ha => hself.part ha⟩
    obtain ⟨s, hs, hlength, hargs⟩ := hargs
    have hsig := h.method m hm s hs
    exact ⟨fun q hq => typed_substParams h hs (hsig.param q hq) hlength hargs,
      typed_substParams h hs hsig.ret hlength hargs⟩
  ret := hret
  untyped _ := Outline.typed_of_isUntyped

end Registry

end TypeFlow
