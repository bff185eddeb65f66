import TypeFlow.Check.Bodies
import TypeFlow.Proofs.Check.Sound
import TypeFlow.Proofs.Decl.Names
import TypeFlow.Proofs.Infer.Recorded

namespace TypeFlow

structure Registration.Sound (p : Prop) (o : Outline) (s : Registration) : Prop where
  registry : s.registry.Sound p o
  const : ∀ b ∈ s.consts, b.Holds (o.Typed p [])

namespace Registry

variable {p : Prop} {o : Outline} {r r' : Registry} {d : DeclId} {f : DeclInfo → DeclInfo}

theorem eq_of_addDecl {info : DeclInfo} (h : r.addDecl info = some (d, r')) :
    r.typeDef info.name = none ∧ d = r.decls.length ∧
      r' = { r with decls := r.decls ++ [info], types := r.types ++ [(info.name, .decl r.decls.length)] } := by
  unfold addDecl at h
  split at h <;> cases h
  next hnone => exact ⟨by simpa using hnone, rfl, rfl⟩

theorem eq_of_addAlias {x : String} {t : Ty} (h : r.addAlias x t = some r') :
    r.typeDef x = none ∧ r' = { r with types := r.types ++ [(x, .alias t)] } := by
  unfold addAlias at h
  split at h <;> cases h
  next hnone => exact ⟨by simpa using hnone, rfl⟩

theorem eq_of_addFunction {sig : Signature} (h : r.addFunction sig = some r') :
    r.function sig.name = none ∧ r' = { r with functions := r.functions ++ [sig] } := by
  unfold addFunction at h
  split at h <;> cases h
  next hnone => exact ⟨by simpa using hnone, rfl⟩

theorem eq_of_addMethod {m : MethodSig} (h : r.addMethod m = some r') :
    r.method m.receiver m.sig.name = none ∧ r' = { r with methods := r.methods ++ [m] } := by
  unfold addMethod at h
  split at h <;> cases h
  next hnone => exact ⟨by simpa using hnone, rfl⟩

theorem eq_of_addConst {x : String} {info : ConstInfo} (h : r.addConst x info = some r') :
    r.constant x = none ∧ r' = { r with consts := r.consts ++ [(x, info)] } := by
  unfold addConst at h
  split at h <;> cases h
  next hnone => exact ⟨by simpa using hnone, rfl⟩

theorem decl?_modifyDecl (e : DeclId) :
    (r.modifyDecl d f).decl? e = (r.decl? e).map fun info => if d = e then f info else info := by
  unfold modifyDecl decl?
  rw [List.getElem?_modify]
  rfl

theorem kind?_modifyDecl (e : DeclId) :
    (r.modifyDecl d f).kind? e =
      (r.decl? e).map fun info => if d = e then (f info).kind else info.kind := by
  unfold kind?
  rw [decl?_modifyDecl, Option.map_map]
  congr 1
  funext info
  simp only [Function.comp_apply]
  split <;> rfl

structure Extends (p : Prop) (o : Outline) (r : Registry) (d : DeclId) (info next : DeclInfo) : Prop where
  shape : next.shape = info.shape
  sound : next.Sound p o
  listed : ∀ t ∈ next.implements, t ∈ info.implements ∨ r.Listed d t
  implementors : ∀ b ds, info.kind = .interface b ds →
    ∃ es, next.kind = .interface b es ∧ ∀ e ∈ ds, e ∈ es

theorem Listed.modifyDecl {e : DeclId} {t : Ty} (h : r.Listed e t)
    (hf : ∀ info, r.decl? d = some info → ∀ b ds, info.kind = .interface b ds →
      ∃ es, (f info).kind = .interface b es ∧ ∀ e ∈ ds, e ∈ es) :
    (r.modifyDecl d f).Listed e t := by
  obtain ⟨i, args, ds, rfl, hds, hmem⟩ := h
  unfold implementors at hds
  split at hds
  · next b ds' hkind =>
    cases hds
    obtain ⟨info, hinfo, hk⟩ := decl?_of_kind? hkind
    by_cases hi : d = i
    · subst hi
      obtain ⟨es, hes, hsub⟩ := hf info hinfo b ds hk
      refine ⟨d, args, es, rfl, ?_, hsub e hmem⟩
      simp [implementors, kind?_modifyDecl, hinfo, hes]
    · refine ⟨i, args, ds, rfl, ?_, hmem⟩
      simp [implementors, kind?_modifyDecl, hinfo, hi, hk]
  · cases hds

theorem Sound.modifyDecl (h : r.Sound p o)
    (hf : ∀ info, r.decl? d = some info → r.Extends p o d info (f info)) :
    (r.modifyDecl d f).Sound p o where
  outline := by
    rw [← h.outline]
    refine List.ext_getElem? fun e => ?_
    unfold Registry.outline
    rw [List.getElem?_map, List.getElem?_map]
    show ((r.modifyDecl d f).decl? e).map _ = (r.decl? e).map _
    rw [decl?_modifyDecl, Option.map_map]
    cases hinfo : r.decl? e with
    | none => rfl
    | some info =>
      by_cases he : d = e
      · subst he
        simp [(hf info hinfo).shape]
      · simp [he]
  enums := h.enums
  decl := by
    intro info hinfo
    obtain ⟨e, he⟩ := List.getElem?_of_mem hinfo
    have hdecl : (r.modifyDecl d f).decl? e = some info := he
    rw [decl?_modifyDecl] at hdecl
    obtain ⟨old, hold, rfl⟩ := Option.map_eq_some_iff.mp hdecl
    split
    · next heq => exact (hf old (heq ▸ hold)).sound
    · exact sound_of_decl? h hold
  listed := by
    intro e info t he ht
    have hgrow {t : Ty} {e : DeclId} (hl : r.Listed e t) : (r.modifyDecl d f).Listed e t :=
      hl.modifyDecl fun info hinfo => (hf info hinfo).implementors
    rw [decl?_modifyDecl] at he
    obtain ⟨old, hold, rfl⟩ := Option.map_eq_some_iff.mp he
    split at ht
    · next heq =>
      subst heq
      rcases (hf old hold).listed t ht with ht | ht
      · exact hgrow (h.listed hold ht)
      · exact hgrow ht
    · exact hgrow (h.listed hold ht)
  aliased := h.aliased
  function := h.function
  method := h.method
  constant := h.constant

end Registry

namespace Register

variable {α β γ : Type} {I : Registration → Prop} {p : Prop} {o : Outline}

def Ensures (P : Registration → Prop) (x : Register α) (Q : α → Registration → Prop) : Prop :=
  ∀ s, P s → Q (x.run s).1 (x.run s).2

def Preserves (I : Registration → Prop) (Q : α → Prop) (x : Register α) : Prop := Ensures I x fun a s => I s ∧ Q a

theorem Ensures.pure {P : Registration → Prop} {Q : α → Registration → Prop} {a : α}
    (h : ∀ s, P s → Q a s) : Ensures P (Pure.pure a) Q := h

theorem Ensures.bind {P : Registration → Prop} {Q : α → Registration → Prop}
    {R : β → Registration → Prop} {x : Register α} {f : α → Register β} (hx : Ensures P x Q)
    (hf : ∀ a, Ensures (Q a) (f a) R) : Ensures P (x >>= f) R := fun s hs => hf _ _ (hx s hs)

namespace Preserves

variable {Q : α → Prop} {R : β → Prop} {x : Register α} {f : α → Register β}

theorem pure {a : α} (h : Q a) : Preserves I Q (Pure.pure a) := fun _ hs => ⟨hs, h⟩

theorem bind (hx : Preserves I Q x) (hf : ∀ a, Q a → Preserves I R (f a)) : Preserves I R (x >>= f) := by
  intro s hs
  obtain ⟨hs', ha⟩ := hx s hs
  exact hf _ ha _ hs'

theorem imp {Q' : α → Prop} (hx : Preserves I Q x) (h : ∀ a, Q a → Q' a) : Preserves I Q' x :=
  fun s hs => (hx s hs).imp_right (h _)

theorem trivial (hx : Preserves I Q x) : Preserves I (fun _ => True) x := hx.imp fun _ _ => True.intro

theorem ite {q : Prop} [Decidable q] {y : Register α} (hx : Preserves I Q x) (hy : Preserves I Q y) :
    Preserves I Q (if q then x else y) := by
  split
  · exact hx
  · exact hy

end Preserves

def Unread (I : Registration → Prop) : Prop := ∀ s es, I s → I { s with errors := es }

theorem unread_sound : Unread (·.Sound p o) := fun _ _ hs => ⟨hs.registry, hs.const⟩

theorem preserves_get : Preserves I I (get : Register Registration) := fun _ hs => ⟨hs, hs⟩

theorem preserves_set {s : Registration} (h : I s) : Preserves I (fun _ => True) (set s : Register Unit) :=
  fun _ _ => ⟨h, True.intro⟩

theorem preserves_report (hI : Unread I) (span : Span) (cause : Cause) :
    Preserves I (fun _ => True) (report span cause) := fun s hs => ⟨hI s _ hs, True.intro⟩

theorem preserves_modifyRegistry {f : Registry → Registry} (h : ∀ s, I s → I { s with registry := f s.registry }) :
    Preserves I (fun _ => True) (modifyRegistry f) := fun s hs => ⟨h s hs, True.intro⟩

theorem preserves_keep (hI : Unread I) {added : Option Registry} (span : Span) (x : String)
    (h : ∀ r, added = some r → ∀ s, I s → I { s with registry := r }) :
    Preserves I (fun _ => True) (keep added span x) := by
  unfold keep
  split
  · next r => exact preserves_modifyRegistry fun s hs => h r rfl s hs
  · exact preserves_report hI _ _

structure Walks (one : DeclId → γ → Register Unit)
    (all : List (Option DeclId) → List γ → Register Unit) : Prop where
  done : ∀ items, all [] items = pure ()
  short : ∀ ids, all ids [] = pure ()
  skip : ∀ ids item items, all (none :: ids) (item :: items) = all ids items
  step : ∀ d ids item items, all (some d :: ids) (item :: items) = (do one d item; all ids items)

theorem preserves_walk {one : DeclId → γ → Register Unit} {all : List (Option DeclId) → List γ → Register Unit}
    (hall : Walks one all) {ids : List (Option DeclId)} {items : List γ}
    (h : ∀ e ∈ ids.zip items, ∀ d, e.1 = some d → Preserves I (fun _ => True) (one d e.2)) :
    Preserves I (fun _ => True) (all ids items) := by
  induction ids generalizing items with
  | nil =>
    rw [hall.done]
    exact .pure True.intro
  | cons id ids ih =>
    cases items with
    | nil =>
      rw [hall.short]
      exact .pure True.intro
    | cons item items =>
      obtain ⟨hid, hids⟩ := List.forall_mem_cons.mp h
      cases id with
      | none =>
        rw [hall.skip]
        exact ih hids
      | some d =>
        rw [hall.step]
        exact (hid d rfl).bind fun _ _ => ih hids

theorem preserves_resolveIn {scope scope' : Generics} (span : Span) {w : Written}
    (h : p → ∀ x ∈ w.names, scope.find x = scope'.find x) :
    Preserves (·.Sound p o) (o.Typed p scope'.tys) (resolve scope span w) := by
  unfold resolve
  refine preserves_get.bind fun s hs => ?_
  split
  · next t ht =>
    refine .pure ?_
    by_cases hp : p
    · rw [Registry.resolve_congr _ w (h hp)] at ht
      exact Registry.typed_resolve hs.registry scope' w ht
    · exact (Registry.typed_resolve hs.registry scope w ht).mono fun k => absurd k hp
  · exact (preserves_report unread_sound _ _).bind fun _ _ => .pure Outline.typed_error

theorem preserves_resolve (scope : Generics) (span : Span) (w : Written) :
    Preserves (·.Sound p o) (o.Typed p scope.tys) (resolve scope span w) := preserves_resolveIn span fun _ _ _ => rfl

theorem sound_placeholders (gs : List GenericItem) : (placeholders 0 gs).Sound p o where
  positioned := positioned_placeholders gs
  default {k g t} hg ht := by
    have hnone := default_placeholders 0 gs g (List.mem_of_getElem? hg)
    exact nomatch hnone.symm.trans ht
  constType g hg t ht := constType_placeholders 0 gs g hg t ht ▸ Outline.typed_error

theorem preserves_resolveBounds (hI : Unread I) {good : Ty → Prop} {scope : Generics} {span : Span}
    {ws : List Written} (h : ∀ w ∈ ws, Preserves I good (resolve scope span w)) :
    Preserves I (fun ts => ∀ t ∈ ts, good t) (resolveBounds scope span ws) := by
  induction ws with
  | nil => exact .pure (List.forall_mem_nil _)
  | cons w ws ih =>
    obtain ⟨hw, hws⟩ := List.forall_mem_cons.mp h
    unfold resolveBounds
    refine hw.bind fun t ht => .ite (ih hws) (.ite ?_ ?_)
    · exact (ih hws).bind fun ts hts => .pure (List.forall_mem_cons.mpr ⟨ht, hts⟩)
    · exact (preserves_report hI _ _).bind fun _ _ => ih hws

theorem preserves_resolveGenericKind (hI : Unread I) {bound default const : Ty → Prop} {scope : Generics}
    {g : GenericItem} (hbound : ∀ w ∈ g.bounds, Preserves I bound (resolve scope g.span w))
    (hdefault : ∀ w ∈ g.default?, Preserves I default (resolve scope g.span w))
    (hconst : ∀ w ∈ g.const?, Preserves I const (resolve scope g.span w)) (x : String) (i : Nat) :
    Preserves I (fun kind => (GenericParam.mk x i kind).isConst = g.const?.isSome ∧
        (GenericParam.mk x i kind).All bound default const)
      (resolveGenericKind scope g.span g.kind) := by
  obtain ⟨y, kind, span⟩ := g
  unfold resolveGenericKind
  cases kind with
  | const w => exact (hconst w rfl).bind fun t ht => .pure ⟨rfl, nofun, nofun, by rintro _ ⟨⟩; exact ht⟩
  | type bs d =>
    cases d with
    | none => exact (preserves_resolveBounds hI hbound).bind fun ts hts => .pure ⟨rfl, hts, nofun, nofun⟩
    | some w =>
      refine (preserves_resolveBounds hI hbound).bind fun ts hts => (hdefault w rfl).bind fun t ht => ?_
      exact .pure ⟨rfl, hts, by rintro _ ⟨⟩; exact ht, nofun⟩

theorem preserves_resolveGenericsFrom (hI : Unread I) {bound const : Ty → Prop} {default : Nat → Ty → Prop}
    {scope : Generics} {all gs : List GenericItem}
    (hbound : ∀ g ∈ all, ∀ w ∈ g.bounds, Preserves I bound (resolve scope g.span w))
    (hdefault : ∀ (k : Nat) g, all[k]? = some g → ∀ w ∈ g.default?, Preserves I (default k) (resolve scope g.span w))
    (hconst : ∀ g ∈ all, ∀ w ∈ g.const?, Preserves I const (resolve scope g.span w)) {i : Nat} (hgs : all.drop i = gs) :
    Preserves I (fun ps => Generics.forms ps = (placeholders i gs).forms ∧
        ∀ (k : Nat) q, ps[k]? = some q → q.All bound (default (i + k)) const)
      (resolveGenericsFrom scope i gs) := by
  induction gs generalizing i with
  | nil => exact .pure ⟨rfl, fun k q h => nomatch h⟩
  | cons g gs ih =>
    obtain ⟨hhead, htail⟩ := of_drop_eq_cons hgs
    have hmem := List.mem_of_getElem? hhead
    unfold resolveGenericsFrom
    refine (preserves_resolveGenericKind hI (hbound g hmem) (hdefault i g hhead) (hconst g hmem) g.name i).bind
      fun kind hkind => (ih htail).bind fun ps hps => .pure ⟨?_, fun k q hq => ?_⟩
    · rw [forms_placeholders_cons, ← hps.1, ← hkind.1]
      rfl
    · cases k with
      | zero =>
        cases hq
        exact hkind.2
      | succ k =>
        have hq := hps.2 k q hq
        rwa [Nat.add_assoc, Nat.add_comm 1 k] at hq

theorem preserves_resolveGenerics (hI : Unread I) {bound const : Ty → Prop} {default : Nat → Ty → Prop}
    {gs : List GenericItem}
    (hbound : ∀ g ∈ gs, ∀ w ∈ g.bounds, Preserves I bound (resolve (placeholders 0 gs) g.span w))
    (hdefault : ∀ (k : Nat) g, gs[k]? = some g → ∀ w ∈ g.default?,
      Preserves I (default k) (resolve (placeholders 0 gs) g.span w))
    (hconst : ∀ g ∈ gs, ∀ w ∈ g.const?, Preserves I const (resolve (placeholders 0 gs) g.span w)) :
    Preserves I (fun ps => Generics.forms ps = (placeholders 0 gs).forms ∧
        ∀ (k : Nat) q, ps[k]? = some q → q.All bound (default k) const)
      (resolveGenerics gs) := by
  refine (preserves_resolveGenericsFrom hI hbound hdefault hconst (List.drop_zero (l := gs))).imp fun ps hps => ?_
  exact ⟨hps.1, fun k q hq => Nat.zero_add k ▸ hps.2 k q hq⟩

theorem preserves_sound_resolveGenerics {gs : List GenericItem} (hgs : p → GenericItem.InOrder gs) :
    Preserves (·.Sound p o) (fun ps => ps.tys = (placeholders 0 gs).tys ∧ ps.Sound p o) (resolveGenerics gs) := by
  let scope := placeholders 0 gs
  have hbound : ∀ g ∈ gs, ∀ w ∈ g.bounds, Preserves (·.Sound p o) (fun _ => True) (resolve scope g.span w) :=
    fun g _ w _ => (preserves_resolve scope g.span w).trivial
  have hdefault : ∀ (k : Nat) g, gs[k]? = some g → ∀ w ∈ g.default?,
      Preserves (·.Sound p o) (o.Typed p (Generics.tys (scope.take k))) (resolve scope g.span w) :=
    fun k g hg w hw => preserves_resolveIn g.span fun hp => (hgs hp).defaults.find hg hw
  have hconst : ∀ g ∈ gs, ∀ w ∈ g.const?,
      Preserves (·.Sound p o) (o.Typed p (Generics.tys [])) (resolve scope g.span w) :=
    fun g hg w hw => preserves_resolveIn g.span fun hp => (hgs hp).consts.find hg hw
  refine (preserves_resolveGenerics unread_sound hbound hdefault hconst).imp fun ps hps => ?_
  have htys := Generics.tys_of_forms hps.1
  refine ⟨htys, htys ▸ positioned_placeholders gs, fun {k g t} hg ht => ?_, fun g hg t ht => ?_⟩
  · rw [htys, Generics.tys, ← List.map_take]
    exact (hps.2 k g hg).default t ht
  · obtain ⟨k, hk⟩ := List.getElem?_of_mem hg
    exact (hps.2 k g hk).constType t ht

def Declared {γ : Type} (o : Outline) (f : DeclForm) (generics : γ → List GenericItem)
    (ids : List (Option DeclId)) (items : List γ) : Prop :=
  ∀ e ∈ ids.zip items, ∀ d, e.1 = some d → o[d]? = some ⟨f, (placeholders 0 (generics e.2)).tys⟩

def setGenericsOf (d : DeclId) (gs : List GenericItem) : Register Unit := do
  let generics ← resolveGenerics gs
  modifyRegistry fun r => r.modifyDecl d fun info => { info with generics }

theorem walks_setGenerics : Walks setGenericsOf setGenerics where
  done _ := rfl
  short ids := by cases ids with
    | nil => rfl
    | cons id ids => cases id <;> rfl
  skip _ _ _ := rfl
  step d ids gs gss := by rw [setGenerics, setGenericsOf, bind_assoc]

theorem preserves_setGenerics {f : DeclForm} {ids : List (Option DeclId)} {gss : List (List GenericItem)}
    (hgss : p → ∀ gs ∈ gss, GenericItem.InOrder gs) (h : Declared o f id ids gss) :
    Preserves (·.Sound p o) (fun _ => True) (setGenerics ids gss) := by
  refine preserves_walk walks_setGenerics fun e he d hd => ?_
  have hgs : p → GenericItem.InOrder e.2 := fun hp => hgss hp e.2 (List.of_mem_zip he).2
  refine (preserves_sound_resolveGenerics hgs).bind fun ps hps => preserves_modifyRegistry fun s hs => ⟨?_, hs.const⟩
  refine hs.registry.modifyDecl fun info hinfo => ?_
  have hsound := Registry.sound_of_decl? hs.registry hinfo
  have hshape : info.shape = ⟨f, (placeholders 0 e.2).tys⟩ :=
    Option.some.inj ((Registry.shape_of_decl? hs.registry hinfo).symm.trans (h e he d hd))
  have htys : ps.tys = info.generics.tys := hps.1.trans (congrArg DeclShape.params hshape).symm
  refine ⟨congrArg (DeclShape.mk _) htys, ⟨hps.2, ?_, ?_, hsound.implementor⟩, fun t ht => .inl ht,
    fun b ds hk => ⟨ds, hk, fun _ he => he⟩⟩
  · show ∀ {fs is}, info.kind = .struct fs is → ∀ e ∈ fs, o.Typed p ps.tys e.2
    rw [htys]
    exact hsound.field
  · show ∀ t ∈ info.implements, o.Typed p ps.tys t
    rw [htys]
    exact hsound.listed

theorem sound_addAlias {r r' : Registry} {x : String} {t : Ty} (h : r.Sound p o) (ht : o.Typed p [] t)
    (k : r.addAlias x t = some r') : r'.Sound p o := by
  obtain ⟨-, rfl⟩ := Registry.eq_of_addAlias k
  refine ⟨h.outline, h.enums, h.decl, h.listed, ?_, h.function, h.method, h.constant⟩
  intro e he u hu
  rcases List.mem_append.mp he with he | he
  · exact h.aliased e he u hu
  · cases List.mem_singleton.mp he
    cases hu
    exact ht

theorem sound_getD_addAlias {r : Registry} (x : String) {t : Ty} (h : r.Sound p o)
    (ht : o.Typed p [] t) : ((r.addAlias x t).getD r).Sound p o := by
  cases hr : r.addAlias x t with
  | none => exact h
  | some r' => exact sound_addAlias h ht hr

section Aliases

variable (hI : Unread I)

include hI

theorem preserves_freshAliases (pending as : List AliasItem) : Preserves I (fun _ => True) (freshAliases pending as) := by
  induction as generalizing pending with
  | nil => exact .pure True.intro
  | cons a as ih =>
    unfold freshAliases
    refine preserves_get.bind fun s _ => .ite ?_ (ih _)
    exact (preserves_report hI _ _).bind fun _ _ => ih _

variable (hadd : ∀ s x w t, I s → s.registry.resolve [] w = .ok t ∨ t = .error →
  I { s with registry := (s.registry.addAlias x t).getD s.registry })

include hadd

omit hI in
theorem preserves_aliasRound (as : List AliasItem) : Preserves I (fun _ => True) (aliasRound as) := by
  induction as with
  | nil => exact .pure True.intro
  | cons a as ih =>
    intro s hs
    unfold aliasRound
    simp only [StateT.run_bind, StateT.run_get, pure_bind]
    split
    · next t ht => exact ih _ (hadd s a.name a.target t hs (.inl ht))
    · exact ⟨(ih s hs).1, True.intro⟩

theorem preserves_failAlias (a : AliasItem) (e : ResolveError) : Preserves I (fun _ => True) (failAlias a e) :=
  (preserves_report hI _ _).bind fun _ _ => preserves_modifyRegistry fun s hs => hadd s a.name a.target .error hs (.inr rfl)

theorem preserves_failAliases (as : List (AliasItem × ResolveError)) : Preserves I (fun _ => True) (failAliases as) := by
  induction as with
  | nil => exact .pure True.intro
  | cons a as ih => exact (preserves_failAlias hI hadd a.1 a.2).bind fun _ _ => ih

theorem preserves_retryable (as : List (AliasItem × ResolveError)) : Preserves I (fun _ => True) (retryable as) := by
  induction as with
  | nil => exact .pure True.intro
  | cons a as ih =>
    obtain ⟨a, e⟩ := a
    cases e with
    | unknownType x => exact ih.bind fun _ _ => .pure True.intro
    | genericArgCount | constArgExpected => exact (preserves_failAlias hI hadd a _).bind fun _ _ => ih

theorem preserves_aliasRounds (n : Nat) (as : List AliasItem) : Preserves I (fun _ => True) (aliasRounds n as) := by
  induction n generalizing as with
  | zero => exact .pure True.intro
  | succ n ih =>
    unfold aliasRounds
    refine (preserves_aliasRound hadd as).bind fun failed _ => .ite (preserves_failAliases hI hadd failed) ?_
    refine (preserves_retryable hI hadd failed).bind fun pending _ => .ite (.pure True.intro) ?_
    exact ih pending

theorem preserves_aliases (as : List AliasItem) : Preserves I (fun _ => True) (aliases as) :=
  (preserves_freshAliases hI [] as).bind fun _ _ => preserves_aliasRounds hI hadd _ _

end Aliases

theorem preserves_sound_aliases (as : List AliasItem) : Preserves (·.Sound p o) (fun _ => True) (aliases as) := by
  refine preserves_aliases unread_sound (fun s x w t hs ht => ⟨sound_getD_addAlias x hs.registry ?_, hs.const⟩) as
  rcases ht with ht | rfl
  · exact Registry.typed_resolve hs.registry [] w ht
  · exact Outline.typed_error

theorem keeps_constType {c : BodyContext} (V : BodyInvariant c) (item : ConstItem)
    {declared : Option Ty} (hv : V.Checks item.value.asChild) (hd : V.Suggests declared) :
    V.Keeps BodyState.Restores V.good (constType item declared) := by
  have hrule (g : Spot) :
      Rule V.theory True g [item.value.asChild.turn g.scope] (constType item declared) V.good := by
    unfold constType
    split
    · next t ht =>
      have hgood := hd t (Option.eq_some_of_filter_eq_some ht)
      exact (rule_checked hv fun _ => .inl hgood).returns fun _ _ _ => hgood
    · refine (rule_alone hv).andThen fun t => Rule.ite (fun _ => rule_error _ _) fun htyped => Rule.pure fun hA => ?_
      cases declared with
      | none => exact hA.2.1.typed (Bool.eq_false_iff.mpr htyped)
      | some u => exact hd u rfl
  refine (Rule.keeps hrule).imp fun _ hgood => ?_
  obtain ⟨_, hgood⟩ := hgood
  exact hgood

theorem sound_addConst {r r' : Registry} {x : String} {info : ConstInfo} (h : r.Sound p o)
    (ht : o.Typed p [] info.ty) (k : r.addConst x info = some r') : r'.Sound p o := by
  obtain ⟨-, rfl⟩ := Registry.eq_of_addConst k
  refine ⟨h.outline, h.enums, h.decl, h.listed, h.aliased, h.function, h.method, ?_⟩
  intro e he
  rcases List.mem_append.mp he with he | he
  · exact h.constant e he
  · exact List.mem_singleton.mp he ▸ ht

theorem preserves_const (item : ConstItem) : Preserves (·.Sound p o) (fun _ => True) (const item) := by
  unfold const
  extract_lets finish
  have hfinish : ∀ declared, (∀ t, declared = some t → o.Typed p [] t) →
      Preserves (·.Sound p o) (fun _ => True) (finish declared) := by
    intro declared hd
    refine preserves_get.bind fun s hs => ?_
    let c : BodyContext := { registry := s.registry }
    have hunit : o.Typed p c.generics.tys c.returnType := Outline.closed_typed.leaf rfl rfl
    let V := (Registry.Sound.laws hs.registry hunit).recorded Outline.typed_error
    have hvalue : V.Checks item.value.asChild := BodyInvariant.checks _ (fun _ _ => True.intro) fun _ _ => True.intro
    obtain ⟨hbody, -, hty⟩ := keeps_constType V item hvalue hd _ (.initial s.nextVar)
    have hset : ∀ t ∈ s.consts ++ [(constType item declared).after c { nextVar := s.nextVar }],
        t.Holds (o.Typed p []) :=
      List.forall_mem_append.mpr ⟨hs.const, List.forall_mem_singleton.mpr hbody⟩
    refine (preserves_set ?_).bind fun _ _ => ?_
    · exact ⟨hs.registry, hset⟩
    refine preserves_keep unread_sound _ _ fun r hr t ht => ⟨sound_addConst hs.registry ?_ hr, ht.const⟩
    exact hty
  split
  · refine (preserves_resolve [] item.span _).bind fun t ht => hfinish (some t) ?_
    rintro _ ⟨⟩
    exact ht
  · exact hfinish none nofun

theorem preserves_consts (items : List ConstItem) : Preserves (·.Sound p o) (fun _ => True) (consts items) := by
  induction items with
  | nil => exact .pure True.intro
  | cons c cs ih => exact (preserves_const c).bind fun _ _ => ih

end Register

end TypeFlow
