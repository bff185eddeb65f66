import TypeFlow.Proofs.Check.Domains
import TypeFlow.Proofs.Check.Implementors

namespace TypeFlow

namespace Registry

variable {r r' R : Registry} {d : DeclId} {f : DeclInfo → DeclInfo} {x : String} {t : Ty}

theorem genericsOf_congr (h : r'.decls.map (·.generics) = r.decls.map (·.generics)) : r'.genericsOf = r.genericsOf := by
  funext d
  have hget (r : Registry) : (r.decl? d).map (·.generics) = (r.decls.map (·.generics))[d]? := List.getElem?_map.symm
  rw [genericsOf, genericsOf, hget, hget, h]

theorem genericsOf_of_decls (h : r'.decls = r.decls) : r'.genericsOf = r.genericsOf :=
  genericsOf_congr (congrArg (List.map (·.generics)) h)

theorem genericsOf_modifyDecl {info : DeclInfo} (h : r.decl? d = some info) (e : DeclId) :
    (r.modifyDecl d f).genericsOf e = if d = e then (f info).generics else r.genericsOf e := by
  rw [genericsOf, decl?_modifyDecl]
  split
  · next heq =>
    subst heq
    rw [h]
    rfl
  · rw [genericsOf, Option.map_id']

theorem modifyDecl_of_none (h : r.decl? d = none) : r.modifyDecl d f = r := by
  unfold modifyDecl
  rw [List.modify_eq_self (List.getElem?_eq_none_iff.mp h)]

theorem lookup_append_alias {es : List (String × TypeDef)} {y : String}
    (h : (es ++ [(x, TypeDef.alias t)]).lookup y = some (.decl d)) : es.lookup y = some (.decl d) := by
  rw [List.lookup_append] at h
  rcases Option.or_eq_some_iff.mp h with h | ⟨-, h⟩
  · exact h
  · rw [List.lookup_cons, List.lookup_nil] at h
    split at h <;> cases h

def front (r : Registry) : List (String × TypeDef) × List Generics × List (String × ConstInfo) :=
  (r.types, r.decls.map (·.generics), r.consts)

theorem front_modifyDecl (r : Registry) (d : DeclId) (h : ∀ info, (f info).generics = info.generics) :
    (r.modifyDecl d f).front = r.front :=
  congrArg (r.types, ·, r.consts) (map_decls_modifyDecl (·.generics) h r d)

theorem front_noteImplementor (r : Registry) (i d : DeclId) : (r.noteImplementor i d).front = r.front := by
  unfold noteImplementor
  split
  · rfl
  · refine front_modifyDecl r i fun info => ?_
    split <;> rfl

theorem front_addFunction {sig : Signature} (h : r.addFunction sig = some r') : r'.front = r.front := by
  obtain ⟨-, rfl⟩ := eq_of_addFunction h
  rfl

theorem front_addMethod {m : MethodSig} (h : r.addMethod m = some r') : r'.front = r.front := by
  obtain ⟨-, rfl⟩ := eq_of_addMethod h
  rfl

theorem genericsOf_of_front (h : r'.front = r.front) : r'.genericsOf = r.genericsOf :=
  genericsOf_congr (congrArg (·.2.1) h)

namespace Precedes

theorem congr (h : r.Precedes R) (hfront : r'.front = r.front) : r'.Precedes R where
  declared {x d} hx := h.declared (by rwa [typeDef, show r'.types = r.types from congrArg (·.1) hfront] at hx)
  forms d := by
    rw [genericsOf_of_front hfront]
    exact h.forms d
  constant {x info} hx :=
    h.constant (by rwa [Registry.constant, show r'.consts = r.consts from congrArg (·.2.2) hfront] at hx)

theorem addAlias (h : r.Precedes R) (k : r.addAlias x t = some r') : r'.Precedes R := by
  obtain ⟨-, rfl⟩ := eq_of_addAlias k
  exact ⟨fun hx => h.declared (lookup_append_alias hx), h.forms, h.constant⟩

theorem addConst {info : ConstInfo} (h : r.Precedes R) (k : r.addConst x info = some r')
    (hR : r'.consts <+: R.consts) : r'.Precedes R := by
  obtain ⟨-, rfl⟩ := eq_of_addConst k
  exact ⟨h.declared, h.forms, fun hx => lookup_of_isPrefix hR hx⟩

theorem modifyDecl (h : r.Precedes R)
    (hf : ∀ info, r.decl? d = some info → (f info).generics.forms = (R.genericsOf d).forms) :
    (r.modifyDecl d f).Precedes R := by
  cases hd : r.decl? d with
  | none => rwa [modifyDecl_of_none hd]
  | some info =>
    refine ⟨h.declared, fun e => ?_, h.constant⟩
    rw [genericsOf_modifyDecl hd]
    split
    · next heq => exact heq ▸ hf info hd
    · exact h.forms e

end Precedes

theorem fixesParams_nil {known : Generics} : R.FixesParams known [] := fun _ _ hq => nomatch hq

namespace Stocks

theorem addAlias (h : R.Stocks r) (ht : R.Fixes [] t) (k : r.addAlias x t = some r') : R.Stocks r' := by
  obtain ⟨-, rfl⟩ := eq_of_addAlias k
  refine ⟨List.forall_mem_append.mpr ⟨h.aliased, List.forall_mem_singleton.mpr ?_⟩, h.generic, h.kind,
    h.function, h.method, h.constant⟩
  rintro _ ⟨⟩
  exact ht

theorem modifyDecl (h : R.Stocks r)
    (hgeneric : ∀ info, r.decl? d = some info → R.FixesParams (R.genericsOf d) (f info).generics)
    (hkind : ∀ info, r.decl? d = some info → ∀ t ∈ (f info).kind.types, R.Fixes (R.genericsOf d) t) :
    R.Stocks (r.modifyDecl d f) := by
  cases hd : r.decl? d with
  | none => rwa [modifyDecl_of_none hd]
  | some info =>
    refine ⟨h.aliased, fun e => ?_, fun {e info'} he => ?_, h.function, h.method, h.constant⟩
    · rw [genericsOf_modifyDecl hd]
      split
      · next heq => exact heq ▸ hgeneric info hd
      · exact h.generic e
    · rw [decl?_modifyDecl] at he
      obtain ⟨old, hold, rfl⟩ := Option.map_eq_some_iff.mp he
      split
      · next heq =>
        subst heq
        exact hkind old hold
      · exact h.kind hold

theorem setKind (h : R.Stocks r) {kind : DeclKind} (hkind : ∀ t ∈ kind.types, R.Fixes (R.genericsOf d) t) :
    R.Stocks (r.modifyDecl d fun info => { info with kind }) :=
  h.modifyDecl (fun info hd => by rw [← genericsOf_of_decl? hd]; exact h.generic d) fun _ _ => hkind

theorem setGenerics (h : R.Stocks r) {generics : Generics} (hgs : R.FixesParams (R.genericsOf d) generics) :
    R.Stocks (r.modifyDecl d fun info => { info with generics }) :=
  h.modifyDecl (fun _ _ => hgs) fun _ hd t ht => h.kind hd t ht

theorem noteImplementor (h : R.Stocks r) (i d : DeclId) : R.Stocks (r.noteImplementor i d) := by
  unfold Registry.noteImplementor
  split
  · exact h
  · refine h.modifyDecl (fun info hi => ?_) fun info hi => ?_
    · have hgeneric := h.generic i
      rw [genericsOf_of_decl? hi] at hgeneric
      split <;> exact hgeneric
    · split
      · exact List.forall_mem_nil _
      · exact h.kind hi

theorem addConst (h : R.Stocks r) {info : ConstInfo} (ht : R.InDomains info.ty) (k : r.addConst x info = some r') :
    R.Stocks r' := by
  obtain ⟨-, rfl⟩ := eq_of_addConst k
  exact ⟨h.aliased, h.generic, h.kind, h.function, h.method,
    List.forall_mem_append.mpr ⟨h.constant, List.forall_mem_singleton.mpr ht⟩⟩

theorem addFunction (h : R.Stocks r) {sig : Signature}
    (hsig : R.FixesParams sig.generics sig.generics ∧ sig.All (R.Fixes sig.generics))
    (k : r.addFunction sig = some r') : R.Stocks r' := by
  obtain ⟨-, rfl⟩ := eq_of_addFunction k
  exact ⟨h.aliased, h.generic, h.kind, List.forall_mem_append.mpr ⟨h.function, List.forall_mem_singleton.mpr hsig⟩,
    h.method, h.constant⟩

theorem addMethod (h : R.Stocks r) {m : MethodSig}
    (hsig : m.sig.generics = [] ∧ m.sig.All (R.Fixes (R.genericsOf m.receiver))) (k : r.addMethod m = some r') :
    R.Stocks r' := by
  obtain ⟨-, rfl⟩ := eq_of_addMethod k
  exact ⟨h.aliased, h.generic, h.kind, h.function,
    List.forall_mem_append.mpr ⟨h.method, List.forall_mem_singleton.mpr hsig⟩, h.constant⟩

end Stocks

end Registry

def ConstItem.written (c : ConstItem) : List Written := c.ty.toList ++ c.value.annotations

def StructItem.written (s : StructItem) : List Written := s.fields.map (·.ty) ++ s.implements

def EnumItem.written (e : EnumItem) : List Written := e.backing.toList ++ e.implements

def FunctionItem.written (f : FunctionItem) : List Written :=
  f.params.map (·.ty) ++ f.ret.toList ++ f.body.annotations

def MethodItem.written (m : MethodItem) : List Written := m.params.map (·.ty) ++ m.ret.toList ++ m.body.annotations

namespace Registry

def SuitsAll (R : Registry) (gs : Generics) (ws : List Written) : Prop := ∀ w ∈ ws, R.SuitsIn gs gs w

structure SuitsParams (R : Registry) (gs : Generics) (items : List GenericItem) : Prop where
  bound : ∀ g ∈ items, R.SuitsAll gs g.bounds
  default : ∀ (k : Nat) g, items[k]? = some g → ∀ w ∈ g.default?, R.SuitsIn (gs.take k) gs w
  const : ∀ g ∈ items, ∀ w ∈ g.const?, R.SuitsIn gs gs w

def genericsOfFunction (R : Registry) (x : String) : Generics := ((R.function x).map (·.generics)).getD []

end Registry

structure Registration.Suits (R : Registry) (s : Registration) : Prop where
  stocks : R.Stocks s.registry
  precedes : s.registry.Precedes R
  const : ∀ b ∈ s.consts, b.Holds R.InDomains

namespace Register

open Registry

variable {α γ : Type} {I : Registration → Prop} {R : Registry} {known scope gs : Generics} {d : DeclId}

theorem unread_suits : Unread (·.Suits R) := fun _ _ hs => ⟨hs.stocks, hs.precedes, hs.const⟩

theorem preserves_resolve_of_unread (hI : Unread I) (scope : Generics) (span : Span) (w : Written) :
    Preserves I (fun _ => True) (resolve scope span w) := by
  unfold resolve
  refine preserves_get.bind fun s _ => ?_
  split
  · exact .pure True.intro
  · exact (preserves_report hI _ _).bind fun _ _ => .pure True.intro

theorem preserves_suits_resolve (hscope : scope.forms = gs.forms) (span : Span) {w : Written}
    (hw : R.SuitsIn known gs w) : Preserves (·.Suits R) (R.Fixes known) (resolve scope span w) := by
  unfold resolve
  refine preserves_get.bind fun s hs => ?_
  split
  · next t ht => exact .pure (hs.stocks.resolve hs.precedes hscope hw ht)
  · exact (preserves_report unread_suits _ _).bind fun _ _ => .pure fixes_error

theorem preserves_forms_resolveGenerics (hI : Unread I) (items : List GenericItem) :
    Preserves I (fun ps => Generics.forms ps = (placeholders 0 items).forms) (resolveGenerics items) := by
  have hany (g : GenericItem) (w : Written) : Preserves I (fun _ => True) (resolve (placeholders 0 items) g.span w) :=
    preserves_resolve_of_unread hI _ _ _
  exact (preserves_resolveGenerics hI (fun g _ w _ => hany g w) (fun _ g _ w _ => hany g w) fun g _ w _ => hany g w).imp
    fun _ hps => hps.1

theorem preserves_suits_resolveGenerics {items : List GenericItem} (hforms : (placeholders 0 items).forms = gs.forms)
    (h : R.SuitsParams gs items) :
    Preserves (·.Suits R) (fun ps => Generics.forms ps = (placeholders 0 items).forms ∧ R.FixesParams gs ps)
      (resolveGenerics items) :=
  preserves_resolveGenerics unread_suits (fun g hg _ hw => preserves_suits_resolve hforms g.span (h.bound g hg _ hw))
    (fun k g hg _ hw => preserves_suits_resolve hforms g.span (h.default k g hg _ hw))
    fun g hg _ hw => preserves_suits_resolve hforms g.span (h.const g hg _ hw)

def SuitParams (R : Registry) (generics : γ → List GenericItem) (ids : List (Option DeclId)) (items : List γ) : Prop :=
  ∀ e ∈ ids.zip items, ∀ d, e.1 = some d →
    (placeholders 0 (generics e.2)).forms = (R.genericsOf d).forms ∧ R.SuitsParams (R.genericsOf d) (generics e.2)

theorem preserves_suits_setGenerics {ids : List (Option DeclId)} {gss : List (List GenericItem)}
    (h : SuitParams R id ids gss) : Preserves (·.Suits R) (fun _ => True) (setGenerics ids gss) := by
  refine preserves_walk walks_setGenerics fun e he d hd => ?_
  obtain ⟨hforms, hsuits⟩ := h e he d hd
  refine (preserves_suits_resolveGenerics hforms hsuits).bind fun ps hps => preserves_modifyRegistry fun s hs => ?_
  exact ⟨hs.stocks.setGenerics hps.2, hs.precedes.modifyDecl fun _ _ => hps.1.trans hforms, hs.const⟩

theorem preserves_suits_aliases (as : List AliasItem) :
    Preserves (fun s => s.Suits R ∧ s.registry.consts = []) (fun _ => True) (aliases as) := by
  refine preserves_aliases (fun s es hs => ⟨unread_suits s es hs.1, hs.2⟩) (fun s x w t hs ht => ?_) as
  obtain ⟨hs, hconsts⟩ := hs
  have hfixes : R.Fixes [] t := by
    rcases ht with ht | rfl
    · exact hs.stocks.resolve_of_consts hs.precedes hconsts ht
    · exact fixes_error
  cases hadd : s.registry.addAlias x t with
  | none => exact ⟨hs, hconsts⟩
  | some r =>
    refine ⟨⟨hs.stocks.addAlias hfixes hadd, hs.precedes.addAlias hadd, hs.const⟩, ?_⟩
    exact (congrArg (·.consts) (eq_of_addAlias hadd).2).trans hconsts

theorem ensures_suits_keep {added : Option Registry} {Q : Registry → Prop} (span : Span) (x : String)
    (h : ∀ r, added = some r → Q r → R.Stocks r ∧ r.Precedes R) :
    Ensures (·.Suits R) (keep added span x) fun _ s => Q s.registry → s.Suits R := by
  intro s hs
  unfold keep
  split
  · next r =>
    intro hQ
    obtain ⟨hstocks, hprecedes⟩ := h r rfl hQ
    exact ⟨hstocks, hprecedes, hs.const⟩
  · exact fun _ => unread_suits s _ hs

theorem ensures_suits_const {item : ConstItem} (hw : R.SuitsAll [] item.written) :
    Ensures (fun s => s.Suits R ∧ s.registry.genericsOf = R.genericsOf) (const item)
      fun _ s => s.registry.consts <+: R.consts → s.Suits R := by
  let P (s : Registration) : Prop := s.Suits R ∧ s.registry.genericsOf = R.genericsOf
  obtain ⟨htype, hannotations⟩ := List.forall_mem_append.mp hw
  unfold const
  extract_lets finish
  have hfinish : ∀ declared, (∀ t, declared = some t → R.InDomains t) →
      Ensures P (finish declared) fun _ s => s.registry.consts <+: R.consts → s.Suits R := by
    intro declared hd
    have hget : Ensures P get fun s _ => P s := fun _ hs => hs
    refine hget.bind fun s _ hs => ?_
    obtain ⟨hs, hgenerics⟩ := hs
    let c : BodyContext := { registry := s.registry }
    have hunit : R.InDomains c.returnType := closed_obeys.leaf rfl rfl
    let V := (hs.stocks.laws (c := c) hs.precedes hgenerics hunit).recorded inDomains_error
    have hvalue : V.Checks item.value.asChild := BodyInvariant.checks _ (fun _ _ => True.intro) hannotations
    obtain ⟨hbody, -, hty⟩ := keeps_constType V item hvalue hd _ (.initial s.nextVar)
    have hconsts : ∀ b ∈ s.consts ++ [(constType item declared).after c { nextVar := s.nextVar }],
        b.Holds R.InDomains := List.forall_mem_append.mpr ⟨hs.const, List.forall_mem_singleton.mpr hbody⟩
    refine ensures_suits_keep (Q := fun r => r.consts <+: R.consts) item.span item.name (fun r hr hR => ?_) _
      ⟨hs.stocks, hs.precedes, hconsts⟩
    refine ⟨hs.stocks.addConst ?_ hr, hs.precedes.addConst hr hR⟩
    exact hty
  split
  · next w hw =>
    have hsuits : R.SuitsIn [] [] w := htype w (by simp [hw])
    have hresolve : Ensures P (resolve [] item.span w) fun t s => P s ∧ R.Fixes [] t := by
      rintro s ⟨hs, hgenerics⟩
      obtain ⟨hs', ht⟩ := preserves_suits_resolve rfl item.span hsuits s hs
      exact ⟨⟨hs', (leaves_resolve [] item.span w s).trans hgenerics⟩, ht⟩
    have hrest (t : Ty) : Ensures (fun s => P s ∧ R.Fixes [] t) (finish (some t))
        fun _ s => s.registry.consts <+: R.consts → s.Suits R := by
      rintro s ⟨hs, ht⟩
      refine hfinish (some t) (fun u hu => ?_) s hs
      cases hu
      exact ht.inDomains
    exact hresolve.bind hrest
  · exact hfinish none nofun

theorem preserves_registry_const {P : Registry → Prop} (item : ConstItem)
    (h : ∀ (r r' : Registry) t σ, P r →
      r.addConst item.name ⟨t, item.value.constValue r σ, item.span⟩ = some r' → P r') :
    Preserves (fun s => P s.registry) (fun _ => True) (const item) := by
  have hunread : Unread fun s => P s.registry := fun _ _ hs => hs
  unfold const
  extract_lets finish
  have hfinish (declared : Option Ty) : Preserves (fun s => P s.registry) (fun _ => True) (finish declared) := by
    refine preserves_get.bind fun s hs => (preserves_set hs).bind fun _ _ => ?_
    exact preserves_keep hunread _ _ fun r hr _ _ => h _ r _ _ hs hr
  split
  · exact (preserves_resolve_of_unread hunread _ _ _).bind fun t _ => hfinish (some t)
  · exact hfinish none

theorem preserves_prefix_const (cs : List (String × ConstInfo)) (item : ConstItem) :
    Preserves (fun s => cs <+: s.registry.consts) (fun _ => True) (const item) := by
  refine preserves_registry_const (P := fun r => cs <+: r.consts) item fun _ _ _ _ hr hadd => ?_
  obtain ⟨-, rfl⟩ := eq_of_addConst hadd
  exact hr.trans (List.prefix_append _ _)

theorem prefix_consts (items : List ConstItem) (s : Registration) :
    s.registry.consts <+: ((consts items).run s).2.registry.consts := by
  induction items generalizing s with
  | nil => exact List.prefix_refl _
  | cons item items ih => exact (preserves_prefix_const _ item s (List.prefix_refl _)).1.trans (ih _)

theorem suits_consts {items : List ConstItem} (hw : ∀ c ∈ items, R.SuitsAll [] c.written) {s : Registration}
    (hs : s.Suits R) (hgenerics : s.registry.genericsOf = R.genericsOf)
    (hR : ((consts items).run s).2.registry.consts <+: R.consts) : ((consts items).run s).2.Suits R := by
  induction items generalizing s with
  | nil => exact hs
  | cons item items ih =>
    obtain ⟨hitem, hitems⟩ := List.forall_mem_cons.mp hw
    have hone := ensures_suits_const hitem s ⟨hs, hgenerics⟩ ((prefix_consts items _).trans hR)
    have hleaves := leaves_const (fun _ _ _ _ h => genericsOf_of_decls (decls_addConst h)) item s
    exact ih hitems hone (hleaves.trans hgenerics) hR

theorem leaves_generics_consts (items : List ConstItem) : Leaves Registry.genericsOf (consts items) :=
  leaves_consts (fun _ _ _ _ h => genericsOf_of_decls (decls_addConst h)) items

theorem preserves_suits_implementsList (hscope : scope.forms = gs.forms) (d : DeclId) (span : Span) {ws : List Written}
    (hw : ∀ w ∈ ws, R.SuitsIn known gs w) :
    Preserves (·.Suits R) (fun ts => ∀ t ∈ ts, R.Fixes known t) (implementsList d scope span ws) := by
  induction ws with
  | nil => exact .pure (List.forall_mem_nil _)
  | cons w ws ih =>
    obtain ⟨hw, hws⟩ := List.forall_mem_cons.mp hw
    unfold implementsList
    refine (preserves_suits_resolve hscope span hw).bind fun t ht => ?_
    split
    · exact ih hws
    · next i args =>
      have hnote : Preserves (·.Suits R) (fun _ => True) (modifyRegistry fun r => r.noteImplementor i d) :=
        preserves_modifyRegistry fun s hs =>
          ⟨hs.stocks.noteImplementor i d, hs.precedes.congr (front_noteImplementor _ i d), hs.const⟩
      exact hnote.bind fun _ _ => (ih hws).bind fun ts hts => .pure (List.forall_mem_cons.mpr ⟨ht, hts⟩)
    · exact (preserves_report unread_suits _ _).bind fun _ _ => ih hws

theorem preserves_suits_setKind {kind : DeclKind} (hkind : ∀ t ∈ kind.types, R.Fixes (R.genericsOf d) t) :
    Preserves (·.Suits R) (fun _ => True) (modifyRegistry fun r => r.modifyDecl d fun info => { info with kind }) :=
  preserves_modifyRegistry fun _ hs =>
    ⟨hs.stocks.setKind hkind, hs.precedes.congr (front_modifyDecl _ d fun _ => rfl), hs.const⟩

theorem preserves_suits_struct {item : StructItem} (hw : R.SuitsAll (R.genericsOf d) item.written) :
    Preserves (·.Suits R) (fun _ => True) (struct d item) := by
  obtain ⟨hfields, himplements⟩ := List.forall_mem_append.mp hw
  unfold struct
  refine preserves_get.bind fun s hs => ?_
  have hscope := hs.precedes.forms d
  have hfield : ∀ f ∈ item.fields, Preserves (·.Suits R) (R.Fixes (R.genericsOf d))
      (resolve (s.registry.genericsOf d) f.span f.ty) :=
    fun f hf => preserves_suits_resolve hscope f.span (hfields f.ty (List.mem_map_of_mem hf))
  refine Preserves.bind (preserves_fields unread_suits hfield (List.forall_mem_nil _)) fun fs hfs => ?_
  refine (preserves_suits_implementsList hscope d item.span himplements).bind fun is his => preserves_suits_setKind ?_
  exact List.forall_mem_append.mpr ⟨List.forall_mem_map.mpr hfs, his⟩

theorem preserves_suits_enum {item : EnumItem} (hw : R.SuitsAll [] item.written) :
    Preserves (·.Suits R) (fun _ => True) (enum d item) := by
  obtain ⟨hbacking, himplements⟩ := List.forall_mem_append.mp hw
  have hb : Preserves (·.Suits R) (R.Fixes []) (backing item.span item.backing) := by
    refine preserves_backing unread_suits (closed_obeys.leaf rfl rfl) fun w hw => ?_
    exact preserves_suits_resolve rfl item.span (hbacking w (by simp [hw]))
  refine hb.bind fun b hb => (preserves_variants unread_suits _ _ _).bind fun vs _ => ?_
  refine (preserves_suits_implementsList rfl d item.span himplements).bind fun is his => preserves_suits_setKind ?_
  exact List.forall_mem_cons.mpr ⟨hb.of_nil, fun t ht => (his t ht).of_nil⟩

def signature (f : FunctionItem) : Register Signature := do
  let generics ← resolveGenerics f.generics
  let params ← params generics f.params
  let ret ← returnType generics f.span f.ret
  return ⟨f.name, generics, params, f.variadic, ret, f.span⟩

theorem run_function (f : FunctionItem) (s : Registration) {sig : Signature} {s' : Registration}
    (h : (signature f).run s = (sig, s')) :
    (function f).run s = (keep (s'.registry.addFunction sig) f.span f.name).run s' := by
  have heq : function f = (do
      let sig ← signature f
      keep ((← get).registry.addFunction sig) f.span f.name) := by
    simp only [function, signature, bind_assoc, pure_bind]
  rw [heq, StateT.run_bind, h]
  rfl

theorem preserves_signature (hI : Unread I) (f : FunctionItem) :
    Preserves I (fun sig => sig.name = f.name ∧ sig.generics.forms = (placeholders 0 f.generics).forms) (signature f) := by
  refine (preserves_forms_resolveGenerics hI f.generics).bind fun gs hgs => ?_
  have hany (span : Span) (w : Written) : Preserves I (fun _ => True) (resolve gs span w) :=
    preserves_resolve_of_unread hI gs span w
  refine (preserves_params fun q _ => hany q.span q.ty).bind fun ps _ => ?_
  exact (preserves_returnType True.intro fun w _ => hany f.span w).bind fun t _ => .pure ⟨rfl, hgs⟩

theorem preserves_suits_params (hscope : scope.forms = gs.forms) {items : List ParamItem}
    (hw : R.SuitsAll gs (items.map (·.ty))) :
    Preserves (·.Suits R) (fun ps => ∀ q ∈ ps, R.Fixes gs q.ty) (params scope items) :=
  preserves_params fun q hq => preserves_suits_resolve hscope q.span (hw q.ty (List.mem_map_of_mem hq))

theorem preserves_suits_returnType (hscope : scope.forms = gs.forms) {w : Option Written} (hw : R.SuitsAll gs w.toList)
    (span : Span) : Preserves (·.Suits R) (R.Fixes gs) (returnType scope span w) :=
  preserves_returnType (closed_obeys.leaf rfl rfl) fun v hv => preserves_suits_resolve hscope span (hw v (by simp [hv]))

theorem preserves_suits_signature {f : FunctionItem} (hforms : (placeholders 0 f.generics).forms = gs.forms)
    (hgenerics : R.SuitsParams gs f.generics) (hw : R.SuitsAll gs f.written) :
    Preserves (·.Suits R) (fun sig => R.FixesParams gs sig.generics ∧ sig.All (R.Fixes gs)) (signature f) := by
  obtain ⟨htypes, -⟩ := List.forall_mem_append.mp hw
  obtain ⟨hparams, hret⟩ := List.forall_mem_append.mp htypes
  refine (preserves_suits_resolveGenerics hforms hgenerics).bind fun ps hps => ?_
  have hscope := hps.1.trans hforms
  refine (preserves_suits_params hscope hparams).bind fun qs hqs => ?_
  exact (preserves_suits_returnType hscope hret f.span).bind fun t ht => .pure ⟨hps.2, hqs, ht⟩

theorem function_of_addFunction {r r' : Registry} {sig : Signature} (h : r.addFunction sig = some r')
    (hR : r'.functions <+: R.functions) : R.function sig.name = some sig := by
  obtain ⟨hnone, rfl⟩ := eq_of_addFunction h
  refine hR.find?_eq_some ?_
  show (r.functions ++ [sig]).find? (·.name == sig.name) = some sig
  rw [List.find?_append, show r.functions.find? (·.name == sig.name) = none from hnone]
  simp

theorem suits_function {f : FunctionItem} (hgenerics : R.SuitsParams (R.genericsOfFunction f.name) f.generics)
    (hw : R.SuitsAll (R.genericsOfFunction f.name) f.written) {s : Registration} (hs : s.Suits R)
    (hR : ((function f).run s).2.registry.functions <+: R.functions) : ((function f).run s).2.Suits R := by
  obtain ⟨hs', hname, hforms⟩ := preserves_signature unread_suits f s hs
  have hsig (gs : Generics) (hgs : (placeholders 0 f.generics).forms = gs.forms)
      (hgenerics : R.SuitsParams gs f.generics) (hw : R.SuitsAll gs f.written) :=
    (preserves_suits_signature hgs hgenerics hw s hs).2
  cases hrun : (signature f).run s with
  | mk sig s' =>
    rw [run_function f s hrun] at hR ⊢
    rw [hrun] at hs' hname hforms hsig
    refine ensures_suits_keep (Q := fun r => r.functions <+: R.functions) f.span f.name (fun r hr hR => ?_) _ hs' hR
    have hfunction := function_of_addFunction hr hR
    have hgs : R.genericsOfFunction f.name = sig.generics := by
      rw [genericsOfFunction, ← hname, hfunction]
      rfl
    rw [hgs] at hgenerics hw
    exact ⟨hs'.stocks.addFunction (hsig _ hforms.symm hgenerics hw) hr, hs'.precedes.congr (front_addFunction hr)⟩

theorem preserves_prefix_function (fs : List Signature) (f : FunctionItem) :
    Preserves (fun s => fs <+: s.registry.functions) (fun _ => True) (function f) := by
  have hunread : Unread fun s => fs <+: s.registry.functions := fun _ _ hs => hs
  intro s hs
  have hs' := (preserves_signature hunread f s hs).1
  cases hrun : (signature f).run s with
  | mk sig s' =>
    rw [run_function f s hrun]
    rw [hrun] at hs'
    refine preserves_keep hunread _ _ (fun r hr _ _ => ?_) s' hs'
    obtain ⟨-, rfl⟩ := eq_of_addFunction hr
    exact hs'.trans (List.prefix_append _ _)

theorem prefix_functions (fs : List FunctionItem) (s : Registration) :
    s.registry.functions <+: ((functions fs).run s).2.registry.functions :=
  (preserves_functions (fun f _ => preserves_prefix_function _ f) s (List.prefix_refl _)).1

theorem suits_functions {fs : List FunctionItem}
    (h : ∀ f ∈ fs, R.SuitsParams (R.genericsOfFunction f.name) f.generics ∧
      R.SuitsAll (R.genericsOfFunction f.name) f.written) {s : Registration} (hs : s.Suits R)
    (hR : ((functions fs).run s).2.registry.functions <+: R.functions) : ((functions fs).run s).2.Suits R := by
  induction fs generalizing s with
  | nil => exact hs
  | cons f fs ih =>
    obtain ⟨⟨hgenerics, hw⟩, hfs⟩ := List.forall_mem_cons.mp h
    exact ih hfs (suits_function hgenerics hw hs ((prefix_functions fs _).trans hR)) hR

theorem preserves_suits_method {m : MethodItem} (hw : R.SuitsAll (R.genericsNamed m.receiverType) m.written) :
    Preserves (·.Suits R) (fun _ => True) (method m) := by
  obtain ⟨htypes, -⟩ := List.forall_mem_append.mp hw
  obtain ⟨hparams, hret⟩ := List.forall_mem_append.mp htypes
  unfold method
  refine preserves_get.bind fun s hs => ?_
  split
  · exact preserves_report unread_suits _ _
  · next d hd =>
    have hnamed : R.genericsNamed m.receiverType = R.genericsOf d :=
      genericsNamed_of_typeDef (hs.precedes.declared (typeDef_of_declNamed hd))
    rw [hnamed] at hparams hret
    refine preserves_get.bind fun s hs => ?_
    have hscope := hs.precedes.forms d
    refine (preserves_suits_params hscope hparams).bind fun ps hps => ?_
    refine (preserves_suits_returnType hscope hret m.span).bind fun t ht => preserves_get.bind fun s hs => ?_
    refine preserves_keep unread_suits _ _ fun r hr u hu => ?_
    exact ⟨hs.stocks.addMethod ⟨rfl, hps, ht⟩ hr, hs.precedes.congr (front_addMethod hr), hu.const⟩

theorem preserves_forms_setGenerics {forms : DeclId → List (String × Nat × Bool)} {ids : List (Option DeclId)}
    {gss : List (List GenericItem)}
    (h : ∀ e ∈ ids.zip gss, ∀ d, e.1 = some d → (placeholders 0 e.2).forms = forms d) :
    Preserves (fun s => ∀ d, (s.registry.genericsOf d).forms = forms d) (fun _ => True) (setGenerics ids gss) := by
  refine preserves_walk walks_setGenerics fun e he d hd => ?_
  refine (preserves_forms_resolveGenerics (fun _ _ hs => hs) e.2).bind fun ps hps => preserves_modifyRegistry fun s hs e' => ?_
  show ((s.registry.modifyDecl d fun info => { info with generics := ps }).genericsOf e').forms = forms e'
  cases hinfo : s.registry.decl? d with
  | none => rw [modifyDecl_of_none hinfo, hs]
  | some info =>
    rw [genericsOf_modifyDecl hinfo]
    split
    · next heq => rw [← heq, ← h e he d hd, ← hps]
    · exact hs e'

end Register

theorem Registry.fixesParams_placeholders {R : Registry} (known : Generics) (items : List GenericItem) :
    R.FixesParams known (placeholders 0 items) := by
  intro k q hq
  have hmem := List.mem_of_getElem? hq
  refine ⟨?_, fun t ht => ?_, fun t ht => ?_⟩
  · rw [bounds_placeholders 0 items q hmem]
    exact List.forall_mem_nil _
  · exact nomatch (default_placeholders 0 items q hmem).symm.trans ht
  · rw [constType_placeholders 0 items q hmem t ht]
    exact Registry.fixes_error

end TypeFlow
