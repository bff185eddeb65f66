import TypeFlow.Infer.Expr
import TypeFlow.Proofs.Typing.UpperBound

namespace TypeFlow

theorem GenericParam.constType_of_default {g : GenericParam} {t : Ty} (h : g.default = some t) :
    g.constType = none := by
  unfold default at h
  split at h
  · next hk => simp [constType, hk]
  · cases h

theorem GenericParam.isConst_of_constType {g : GenericParam} {t : Ty} (h : g.constType = some t) :
    g.isConst = true := by
  unfold constType at h
  split at h
  · next hk => simp [isConst, hk]
  · cases h

def Generics.InDomains (gs : Generics) (args : List Ty) : Prop :=
  ∀ {k : Nat} {g : GenericParam} {t : Ty} {v : ConstValue}, gs[k]? = some g → g.constType = some t →
    args[k]? = some (.const v) → v.inDomain t = true

def Ty.Applies (good : Ty → Prop) (gs : Generics) (t : Ty) : Prop :=
  ∀ args : List Ty, args.length = gs.length → (∀ a ∈ args, good a) → gs.InDomains args →
    good (t.substParams args)

structure Generics.Holds (good : Ty → Prop) (gs : Generics) : Prop where
  default : ∀ {k : Nat} {g : GenericParam} {t : Ty}, gs[k]? = some g → g.default = some t →
    t.Applies good (gs.take k)
  constType : ∀ g ∈ gs, ∀ t, g.constType = some t → good t

namespace Generics

variable {good : Ty → Prop} {gs : Generics} {done : List Ty} {g : GenericParam}

theorem inDomains_nil (gs : Generics) : gs.InDomains [] := fun _ _ h => nomatch h

theorem InDomains.concat {a : Ty} (h : gs.InDomains done) (hg : gs[done.length]? = some g)
    (ha : ∀ t v, g.constType = some t → a = .const v → v.inDomain t = true) : gs.InDomains (done ++ [a]) := by
  intro k p t v hp ht hv
  rw [List.getElem?_append] at hv
  split at hv
  · exact h hp ht hv
  · obtain ⟨hlt, heq⟩ := List.getElem?_eq_some_iff.mp hv
    rw [List.length_singleton] at hlt
    have hk : k = done.length := by omega
    subst hk
    cases hg.symm.trans hp
    exact ha t v ht (by simpa using heq)

theorem Holds.apply_default {t : Ty} (h : gs.Holds good) (hg : gs[done.length]? = some g)
    (ht : g.default = some t) (hd : ∀ a ∈ done, good a) (hin : gs.InDomains done) :
    good (t.substParams done) := by
  obtain ⟨hlt, -⟩ := List.getElem?_eq_some_iff.mp hg
  refine h.default hg ht done (by rw [List.length_take]; omega) hd fun hp => hin ?_
  rw [List.getElem?_take] at hp
  split at hp
  · exact hp
  · cases hp

end Generics

structure Signature.All (good : Ty → Prop) (sig : Signature) : Prop where
  param : ∀ p ∈ sig.params, good p.ty
  ret : good sig.ret

structure Signature.Holds (good : Ty → Prop) (sig : Signature) : Prop
    extends sig.All (Ty.Applies good sig.generics) where
  generic : sig.generics.Holds good

namespace Ty

variable {good : Ty → Prop} {t : Ty} {gs : Generics}

theorem Applies.closed (h : t.Applies good []) : good t := h [] rfl nofun nofun

theorem Applies.of_not_hasParam (hg : Closed good) (h : t.Applies good gs) (hp : t.flags.hasParam = false) :
    good t := by
  have hargs : ∀ a ∈ List.replicate gs.length Ty.never, good a := fun a ha =>
    List.eq_of_mem_replicate ha ▸ hg.leaf rfl rfl
  have hgood := h _ List.length_replicate hargs fun _ _ ha =>
    nomatch List.eq_of_mem_replicate (List.mem_of_getElem? ha)
  rwa [substParams_of_not_hasParam hp] at hgood

end Ty

theorem Signature.exists_of_paramAt {sig : Signature} {i : Nat} {t : Ty}
    (h : sig.paramAt i = some t) : ∃ p ∈ sig.params, p.ty = t := by
  unfold paramAt at h
  split at h
  · obtain ⟨p, hp, rfl⟩ := Option.map_eq_some_iff.mp h
    exact ⟨p, List.mem_of_getElem? hp, rfl⟩
  · split at h
    · obtain ⟨p, hp, rfl⟩ := Option.map_eq_some_iff.mp h
      exact ⟨p, List.mem_of_getLast? hp, rfl⟩
    · cases h

theorem Signature.All.paramAt {good : Ty → Prop} {sig : Signature} {i : Nat} {t : Ty} (h : sig.All good)
    (k : sig.paramAt i = some t) : good t := by
  obtain ⟨p, hp, rfl⟩ := exists_of_paramAt k
  exact h.param p hp

theorem Registry.receiver_of_method {r : Registry} {d : DeclId} {x : String} {m : MethodSig}
    (h : r.method d x = some m) : m ∈ r.methods ∧ m.receiver = d := by
  unfold method at h
  have hmatch := List.find?_some h
  exact ⟨List.mem_of_find?_eq_some h, eq_of_beq (Bool.and_eq_true_iff.mp hmatch).1⟩

theorem Ty.deref_of_isUntyped {t : Ty} (h : t.isUntyped = true) : t.deref = t := by
  cases t <;> first | rfl | cases h

def Ty.Loose (good : Ty → Prop) (t : Ty) : Prop := good t ∨ t.isUntyped = true

namespace Ty.Loose

variable {good : Ty → Prop} {t u : Ty}

theorem good_of (h : t.Loose good) (k : t.isUntyped = true → good t) : good t := h.elim id k

theorem typed (h : t.Loose good) (k : t.isUntyped = false) : good t :=
  h.resolve_right (Bool.eq_false_iff.mp k)

theorem part (h : t.Loose good) (hg : Closed good) (k : u ∈ t.parts) : good u := by
  refine hg.part (h.typed ?_) k
  cases t <;> first | rfl | cases k

end Ty.Loose

structure TypeClosure (c : BodyContext) (good : Ty → Prop) (written : Written → Prop := fun _ => True) : Prop
    extends Ty.Closed good where
  resolve : ∀ {w t}, written w → c.registry.resolve c.generics w = .ok t → good t
  enum : ∀ {d b vs is}, c.registry.kind? d = some (.enum b vs is) → good (.named d [])
  struct : ∀ {d info fs is args}, c.registry.decl? d = some info → info.kind = .struct fs is →
    args.length = info.generics.length → (∀ a ∈ args, good a) → info.generics.InDomains args →
      good (.named d args)
  field : ∀ {d fs is e args}, c.registry.kind? d = some (.struct fs is) → e ∈ fs →
    good (.named d args) → good (e.2.substParams args)
  listed : ∀ {d info t args}, c.registry.decl? d = some info → t ∈ info.implements →
    good (.named d args) → good (t.substParams args)
  generic : ∀ {d info}, c.registry.decl? d = some info → info.generics.Holds good
  members : ∀ {t ms m}, good t → c.registry.exhaustiveMembers t = some ms → m ∈ ms → good m
  constant : ∀ {x info}, c.registry.constant x = some info → good info.ty
  function : ∀ {f sig}, c.registry.function f = some sig → sig.Holds good
  method : ∀ {m args}, m ∈ c.registry.methods →
    good (.named m.receiver args) ∨ good (.interface m.receiver args) → m.sig.All fun t => good (t.substParams args)
  ret : good c.returnType

structure TypeLaws (c : BodyContext) (good : Ty → Prop) (written : Written → Prop := fun _ => True) : Prop
    extends TypeClosure c good written where
  untyped : ∀ t : Ty, t.isUntyped = true → good t

theorem TypeLaws.trivial (c : BodyContext) : TypeLaws c fun _ => True where
  part _ _ := True.intro
  build _ _ := True.intro
  resolve _ _ := True.intro
  enum _ := True.intro
  struct _ _ _ _ _ := True.intro
  field _ _ _ := True.intro
  listed _ _ _ := True.intro
  generic _ := ⟨fun _ _ _ _ _ _ => True.intro, fun _ _ _ _ => True.intro⟩
  members _ _ _ := True.intro
  constant _ := True.intro
  function _ := ⟨⟨fun _ _ _ _ _ _ => True.intro, fun _ _ _ _ => True.intro⟩,
    ⟨fun _ _ _ _ _ _ => True.intro, fun _ _ _ _ => True.intro⟩⟩
  method _ _ := ⟨fun _ _ => True.intro, True.intro⟩
  ret := True.intro
  untyped _ _ := True.intro

theorem TypeClosure.trivial (c : BodyContext) : TypeClosure c fun _ => True :=
  (TypeLaws.trivial c).toTypeClosure

theorem TypeLaws.loose_iff {c : BodyContext} {good : Ty → Prop} {written : Written → Prop}
    (L : TypeLaws c good written) {t : Ty} : t.Loose good ↔ good t :=
  ⟨fun h => h.good_of (L.untyped t), .inl⟩

namespace TypeClosure

variable {c : BodyContext} {good : Ty → Prop} {written : Written → Prop} (L : TypeClosure c good written)

include L

theorem deref_loose {t u : Ty} (h : t.Loose good) (k : t.deref = u) (hu : u.isUntyped = false) : good u := by
  subst k
  rcases h with h | h
  · exact L.deref h
  · rw [Ty.deref_of_isUntyped h, h] at hu
    cases hu

theorem deref_part {t u v : Ty} (h : t.Loose good) (k : t.deref = u) (hv : v ∈ u.parts) : good v := by
  refine L.part (L.deref_loose h k ?_) hv
  cases u <;> first | rfl | cases hv

theorem fieldType {t u : Ty} {x : String} (h : t.Loose good) (k : c.registry.fieldType t x = some u) :
    good u := by
  unfold Registry.fieldType at k
  split at k
  · next d args heq =>
    have hd := L.deref_loose h heq rfl
    split at k
    · next fs is hkind =>
      obtain ⟨f, hf, rfl⟩ := Option.map_eq_some_iff.mp k
      exact L.field hkind (mem_of_lookup hf) hd
    · cases k
  · cases k

theorem listedInterfaces {d : DeclId} {args : List Ty} {i : Ty} (h : good (.named d args))
    (k : i ∈ c.registry.listedInterfaces d args) : good i := by
  unfold Registry.listedInterfaces at k
  obtain ⟨t, ht, rfl⟩ := List.mem_map.mp k
  cases hd : c.registry.decl? d with
  | none => simp [hd] at ht
  | some info =>
    rw [hd] at ht
    exact L.listed hd ht h

theorem interfacesOf {t i : Ty} (h : t.Loose good) (k : i ∈ c.registry.interfacesOf t) : good i := by
  cases t <;> simp only [Registry.interfacesOf, List.not_mem_nil, List.mem_singleton] at k
  case named d args => exact L.listedInterfaces (h.typed rfl) k
  case interface d args => exact k ▸ h.typed rfl

theorem methodOn {d : DeclId} {args : List Ty} {x : String} {m : Registry.FoundMethod}
    (h : good (.named d args) ∨ good (.interface d args)) (k : c.registry.methodOn d args x = some m) :
    m.method.sig.All fun t => good (t.substParams m.receiverArgs) := by
  obtain ⟨sig, hsig, rfl⟩ := Option.map_eq_some_iff.mp k
  obtain ⟨hmem, rfl⟩ := Registry.receiver_of_method hsig
  exact L.method hmem h

theorem findMethod {t : Ty} {x : String} {m : Registry.FoundMethod} (h : t.Loose good)
    (k : c.registry.findMethod t x = some m) :
    m.method.sig.All fun t => good (t.substParams m.receiverArgs) := by
  unfold Registry.findMethod at k
  split at k
  · next d args heq =>
    have hd := L.deref_loose h heq rfl
    rcases Option.or_eq_some_iff.mp k with k | ⟨-, k⟩
    · exact L.methodOn (.inl hd) k
    · obtain ⟨i, hi, hm⟩ := List.exists_of_findSome?_eq_some k
      have hgood := L.interfacesOf (.inl hd) hi
      split at hm
      · exact L.methodOn (.inr hgood) hm
      · cases hm
  · next d args heq => exact L.methodOn (.inr (L.deref_loose h heq rfl)) k
  · cases k

theorem joins {t u v : Ty} (h : c.registry.Joins t u v) (ht : t.Loose good) (hu : u.Loose good) :
    v.Loose good := by
  induction h with
  | error | same => exact ht
  | never | noneOption | nil | option => exact hu
  | none _ _ htyped => exact .inl (L.single rfl rfl (hu.typed htyped))
  | @interface t u i _ hi =>
    have hmem : i ∈ c.registry.commonInterfaces t u := hi ▸ List.mem_singleton_self i
    exact .inl (L.interfacesOf ht (Registry.mem_commonInterfaces.mp hmem).1)
  | symm _ ih => exact ih hu ht

theorem joinAll {ids : Ty → Nat} {ts : List Ty} {v : Ty} (h : ∀ u ∈ ts, u.Loose good)
    (k : c.registry.joinAll ids ts = .ok v) : v.Loose good :=
  Registry.foldlM_join_of_forall L.joins k (.inl (L.leaf rfl rfl)) h

end TypeClosure

end TypeFlow
