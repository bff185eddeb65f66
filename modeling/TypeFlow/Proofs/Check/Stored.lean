import TypeFlow.Proofs.Check.Declarations
import TypeFlow.Proofs.Infer.Findings

namespace TypeFlow

namespace Ty

class Common (ok : Ty → Prop) : Prop where
  of_typed : ∀ {t : Ty}, t.isError = false → t.isUntyped = false → ok t

theorem Common.byHead (ok : Ty → Prop) [Common ok] : ByHead ok where
  structural {t} h := by
    cases t
    case error | untypedNone | untypedNil => cases h
    all_goals exact of_typed rfl rfl
  named _ _ := of_typed rfl rfl
  interface _ _ := of_typed rfl rfl

def ErrorFree (t : Ty) : Prop := t.Everywhere (· ≠ .error)

theorem errorFree_of_isUntyped {t : Ty} (h : t.isUntyped = true) : t.ErrorFree := by
  cases t
  case untypedNone | untypedNil => exact .leaf nofun rfl
  all_goals cases h

def UntypedFree (t : Ty) : Prop := t.Everywhere (·.isUntyped = false)

instance : Common (· ≠ .error) where
  of_typed h _ := by
    rintro rfl
    cases h

instance : Common (·.isUntyped = false) where
  of_typed _ h := h

variable {ok : Ty → Prop} [Common ok]

theorem everywhere_param (x : String) (i : Nat) : Everywhere ok (.param x i) :=
  .leaf (Common.of_typed rfl rfl) rfl

theorem everywhere_named (d : DeclId) {args : List Ty} (h : ∀ a ∈ args, a.Everywhere ok) :
    Everywhere ok (.named d args) := .intro (Common.of_typed rfl rfl) h

theorem everywhere_leaf {t : Ty} (h : t.isStructural = true) (k : t.parts = []) : t.Everywhere ok :=
  (Common.byHead ok).closed.leaf h k

end Ty

def GenericParam.types (g : GenericParam) : List Ty :=
  match g.kind with
  | .type bounds d => bounds ++ d.toList
  | .const t => [t]

def Signature.types (s : Signature) : List Ty :=
  s.generics.flatMap (·.types) ++ s.params.map (·.ty) ++ [s.ret]

def DeclKind.types : DeclKind → List Ty
  | .struct fs is => fs.map (·.2) ++ is
  | .enum b _ is => b :: is
  | .interface .. => []

def DeclInfo.types (d : DeclInfo) : List Ty := d.generics.flatMap (·.types) ++ d.kind.types

def TypeDef.types : TypeDef → List Ty
  | .alias t => [t]
  | .decl _ => []

def Registry.storedTypes (r : Registry) : List Ty :=
  r.types.flatMap (·.2.types) ++ r.decls.flatMap (·.types) ++ r.functions.flatMap (·.types) ++
    r.methods.flatMap (·.sig.types) ++ r.consts.map (·.2.ty)

theorem Registry.forall_storedTypes {good : Ty → Prop} {r : Registry}
    (aliased : ∀ e ∈ r.types, ∀ t, e.2 = .alias t → good t)
    (decl : ∀ {d info}, r.decl? d = some info → ∀ t ∈ info.types, good t)
    (function : ∀ sig ∈ r.functions, ∀ t ∈ sig.types, good t)
    (method : ∀ m ∈ r.methods, ∀ t ∈ m.sig.types, good t)
    (constant : ∀ e ∈ r.consts, good e.2.ty) : ∀ t ∈ r.storedTypes, good t := by
  intro t ht
  simp only [storedTypes, List.mem_append, List.mem_flatMap, List.mem_map] at ht
  rcases ht with (((⟨⟨x, d | u⟩, he, ht⟩ | ⟨info, hd, ht⟩) | ⟨sig, hs, ht⟩) | ⟨m, hm, ht⟩) | ⟨e, he, rfl⟩
  · cases ht
  · exact List.mem_singleton.mp ht ▸ aliased _ he u rfl
  · obtain ⟨d, hd⟩ := List.getElem?_of_mem hd
    exact decl hd t ht
  · exact function sig hs t ht
  · exact method m hm t ht
  · exact constant e he

theorem GenericParam.mem_types_of_default {g : GenericParam} {t : Ty} (h : g.default = some t) :
    t ∈ g.types := by
  obtain ⟨x, i, kind⟩ := g
  cases kind with
  | type bounds d =>
    have hd : d = some t := h
    simp [types, hd]
  | const u => cases h

theorem GenericParam.mem_types_of_constType {g : GenericParam} {t : Ty} (h : g.constType = some t) :
    t ∈ g.types := by
  obtain ⟨x, i, kind⟩ := g
  cases kind with
  | type bounds d => cases h
  | const u =>
    cases h
    exact List.mem_singleton.mpr rfl

theorem Signature.all_of_types {good : Ty → Prop} {s : Signature} (h : ∀ t ∈ s.types, good t) :
    s.All good where
  param p hp := h p.ty (by simp [types, List.mem_map_of_mem hp])
  ret := h s.ret (by simp [types])

theorem DeclInfo.mem_types_of_implements {d : DeclInfo} {t : Ty} (h : t ∈ d.implements) :
    t ∈ d.kind.types := by
  unfold implements at h
  split at h
  · next hk => simp [hk, DeclKind.types, h]
  · next hk => simp [hk, DeclKind.types, h]
  · cases h

theorem Registry.mem_exhaustiveMembers {r : Registry} {t m : Ty} {ms : List Ty}
    (h : r.exhaustiveMembers t = some ms) (hm : m ∈ ms) : m ∈ t.parts ∨ ∃ d, m = .named d [] := by
  unfold exhaustiveMembers at h
  split at h
  · cases h
    exact .inl hm
  · split at h
    · obtain ⟨d, -, hd⟩ := exists_of_mem_mapM h hm
      unfold plainDecl at hd
      split at hd
      · split at hd <;> cases hd
        exact .inr ⟨d, rfl⟩
      · cases hd
    · cases h
  · cases h

variable {ok : Ty → Prop}

theorem Ty.Everywhere.applies [Ty.Common ok] {t : Ty} (h : t.Everywhere ok) (gs : Generics) :
    t.Applies (Ty.Everywhere ok) gs :=
  fun _ _ ha _ => (Ty.Common.byHead ok).substParams h ha

theorem Generics.holds_of_types [Ty.Common ok] {gs : Generics} (h : ∀ g ∈ gs, ∀ t ∈ g.types, t.Everywhere ok) :
    gs.Holds (Ty.Everywhere ok) where
  default hg ht := (h _ (List.mem_of_getElem? hg) _ (GenericParam.mem_types_of_default ht)).applies _
  constType g hg t ht := h g hg t (GenericParam.mem_types_of_constType ht)

theorem Signature.holds_of_types [Ty.Common ok] {s : Signature} (h : ∀ t ∈ s.types, t.Everywhere ok) :
    s.Holds (Ty.Everywhere ok) where
  toAll := ⟨fun p hp => ((all_of_types h).param p hp).applies _, (all_of_types h).ret.applies _⟩
  generic := by
    refine Generics.holds_of_types fun g hg t ht => h t ?_
    have hmem : t ∈ s.generics.flatMap (·.types) := List.mem_flatMap.mpr ⟨g, hg, ht⟩
    simp [types, hmem]

structure DeclInfo.Clean (ok : Ty → Prop) (pend : Prop) (d : DeclInfo) : Prop where
  kind : ∀ t ∈ d.kind.types, t.Everywhere ok
  generic : ∀ g ∈ d.generics, (∀ t ∈ g.types, t.Everywhere ok) ∨ pend ∧ g.default = none

theorem DeclInfo.Clean.mono {p q : Prop} {d : DeclInfo} (h : d.Clean ok p) (k : p → q) : d.Clean ok q :=
  ⟨h.kind, fun g hg => (h.generic g hg).imp_right fun hp => ⟨k hp.1, hp.2⟩⟩

structure Registry.Clean (ok : Ty → Prop) (pend : DeclId → Prop) (r : Registry) : Prop where
  aliased : ∀ e ∈ r.types, ∀ t ∈ e.2.types, t.Everywhere ok
  decl : ∀ {i info}, r.decl? i = some info → info.Clean ok (pend i)
  function : ∀ sig ∈ r.functions, (∀ t ∈ sig.types, t.Everywhere ok) ∧
    (sig.variadic = true → sig.params = [] → ok .error)
  method : ∀ m ∈ r.methods, ∀ t ∈ m.sig.types, t.Everywhere ok
  constant : ∀ e ∈ r.consts, e.2.ty.Everywhere ok

namespace Registry.Clean

variable {pend pend' : DeclId → Prop} {r : Registry}

theorem mono (h : r.Clean ok pend) (hp : ∀ i, pend i → pend' i) : r.Clean ok pend' :=
  ⟨h.aliased, fun hi => (h.decl hi).mono (hp _), h.function, h.method, h.constant⟩

theorem modifyDecl {d : DeclId} {f : DeclInfo → DeclInfo} (h : r.Clean ok pend)
    (hf : ∀ info, info.Clean ok (pend d) → (f info).Clean ok (pend' d)) (hp : ∀ i, i ≠ d → pend i → pend' i) :
    (r.modifyDecl d f).Clean ok pend' := by
  refine ⟨h.aliased, fun {i info} hi => ?_, h.function, h.method, h.constant⟩
  rw [Registry.decl?_modifyDecl] at hi
  obtain ⟨old, hold, rfl⟩ := Option.map_eq_some_iff.mp hi
  split
  · next heq =>
    subst heq
    exact hf old (h.decl hold)
  · next hne => exact (h.decl hold).mono (hp i fun heq => hne heq.symm)

theorem resolveLaws [Ty.Common ok] (h : r.Clean ok pend) (scope : Generics) : ResolveLaws r scope ok where
  closed := (Ty.Common.byHead ok).closed
  param _ _ := Ty.Common.of_typed rfl rfl
  instantiate {d info args} _ _ _ := by
    unfold DeclInfo.instantiate
    split <;> exact Ty.Common.of_typed rfl rfl
  aliased e he t ht := h.aliased e he t (by simp [ht, TypeDef.types])
  default {d info k g t args} hd hg ht _ ha _ := by
    rcases (h.decl hd).generic _ (List.mem_of_getElem? hg) with htypes | ⟨-, hnone⟩
    · exact (Ty.Common.byHead ok).substParams (htypes t (GenericParam.mem_types_of_default ht)) ha
    · exact nomatch hnone.symm.trans ht
  type _ _ _ := True.intro
  const _ _ _ _ _ := True.intro

theorem storedTypes (h : r.Clean ok fun _ => False) : ∀ t ∈ r.storedTypes, t.Everywhere ok := by
  refine Registry.forall_storedTypes (fun e he t ht => ?_) (fun {d info} hd => ?_)
    (fun sig hs => (h.function sig hs).1) h.method h.constant
  · exact h.aliased e he t (by simp [ht, TypeDef.types])
  · refine List.forall_mem_append.mpr ⟨fun t ht => ?_, (h.decl hd).kind⟩
    obtain ⟨g, hg, ht⟩ := List.mem_flatMap.mp ht
    rcases (h.decl hd).generic g hg with htypes | ⟨hf, -⟩
    · exact htypes t ht
    · exact hf.elim

theorem closure [Ty.Common ok] {c : BodyContext} (h : c.registry.Clean ok fun _ => False)
    (hret : c.returnType.Everywhere ok) : BodyClosure c (Ty.Everywhere ok) where
  types := {
    toClosed := (Ty.Common.byHead ok).closed
    resolve _ := (h.resolveLaws _).resolve _ fun _ _ => True.intro
    enum _ := Ty.everywhere_named _ (List.forall_mem_nil _)
    struct _ _ _ ha _ := Ty.everywhere_named _ ha
    field {d fs is e args} hk hmem hself := by
      obtain ⟨info, hinfo, hk⟩ := Registry.decl?_of_kind? hk
      have hfield : e.2.Everywhere ok := by
        refine (h.decl hinfo).kind _ ?_
        simp [hk, DeclKind.types, List.mem_map_of_mem hmem]
      exact (Ty.Common.byHead ok).substParams hfield fun a ha => hself.part ha
    listed hd ht hself := by
      have hlisted := (h.decl hd).kind _ (DeclInfo.mem_types_of_implements ht)
      exact (Ty.Common.byHead ok).substParams hlisted fun a ha => hself.part ha
    generic hd := by
      refine Generics.holds_of_types fun g hg => ?_
      rcases (h.decl hd).generic _ hg with htypes | ⟨hf, -⟩
      · exact htypes
      · exact hf.elim
    members {t ms m} ht hms hm := by
      rcases Registry.mem_exhaustiveMembers hms hm with hpart | ⟨d, rfl⟩
      · exact ht.part hpart
      · exact Ty.everywhere_named _ (List.forall_mem_nil _)
    constant hx := h.constant _ (mem_of_lookup hx)
    function hf := Signature.holds_of_types (h.function _ (List.mem_of_find?_eq_some hf)).1
    method {m args} hm hself := by
      have hargs : ∀ a ∈ args, a.Everywhere ok := by
        rcases hself with hself | hself <;> exact fun a ha => hself.part ha
      have hsig := Signature.all_of_types (h.method m hm)
      exact ⟨fun q hq => (Ty.Common.byHead ok).substParams (hsig.param q hq) hargs,
        (Ty.Common.byHead ok).substParams hsig.ret hargs⟩
    ret := hret }
  variadic hf hv hp := .leaf ((h.function _ (List.mem_of_find?_eq_some hf)).2 hv hp) rfl

theorem laws {c : BodyContext} (h : c.registry.Clean (· ≠ .error) fun _ => False) (hret : c.returnType.ErrorFree) :
    BodyLaws c Ty.ErrorFree where
  types := {
    toTypeClosure := (h.closure hret).types
    untyped _ := Ty.errorFree_of_isUntyped }
  variadic := (h.closure hret).variadic

end Registry.Clean

end TypeFlow
