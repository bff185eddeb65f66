import TypeFlow.Decl.Registry
import TypeFlow.Proofs.Ty.Closed

namespace TypeFlow

namespace Ty

inductive Everywhere (P : Ty → Prop) : Ty → Prop
  | intro {t : Ty} (here : P t) (below : ∀ u ∈ t.parts, Everywhere P u) : Everywhere P t

namespace Everywhere

variable {P Q : Ty → Prop} {t u : Ty}

theorem node (h : t.Everywhere P) : P t := by
  cases h with
  | intro here below => exact here

theorem part (h : t.Everywhere P) (k : u ∈ t.parts) : u.Everywhere P := by
  cases h with
  | intro here below => exact below u k

theorem leaf (h : P t) (k : t.parts = []) : t.Everywhere P := .intro h (k ▸ List.forall_mem_nil _)

theorem imp (h : t.Everywhere P) (k : ∀ u, P u → Q u) : t.Everywhere Q := by
  induction h with
  | intro here below ih => exact .intro (k _ here) ih

end Everywhere

variable {P Q : Ty → Prop} {t u : Ty}

abbrev VarFree (t : Ty) : Prop := t.Everywhere fun u => ∀ i, u ≠ .var i

theorem meets_union (f g mask : TypeFlags) :
    (f.union g).meets mask = (f.meets mask || g.meets mask) := by
  simp only [TypeFlags.meets, TypeFlags.union, Bool.and_or_distrib_right]
  ac_rfl

theorem meets_treeFlagsAll {ts : List Ty} {mask : TypeFlags} (h : u ∈ ts)
    (k : (treeFlags u).meets mask = true) : (treeFlagsAll ts).meets mask = true := by
  induction ts with
  | nil => cases h
  | cons t ts ih =>
    rw [treeFlagsAll, meets_union, Bool.or_eq_true_iff]
    rcases List.mem_cons.mp h with rfl | h
    · exact .inl k
    · exact .inr (ih h)

theorem meets_flags_of_part {mask : TypeFlags} (h : u ∈ t.parts) (k : u.flags.meets mask = true) :
    t.flags.meets mask = true := by
  rw [flags_eq_treeFlags] at k ⊢
  cases t <;> simp only [parts, List.mem_cons, List.not_mem_nil, or_false] at h
  case map | result =>
    rw [treeFlags, meets_union, Bool.or_eq_true_iff]
    rcases h with rfl | rfl
    · exact .inl k
    · exact .inr k
  case function =>
    rw [treeFlags, meets_union, Bool.or_eq_true_iff]
    rcases h with rfl | h
    · exact .inr k
    · exact .inl (meets_treeFlagsAll h k)
  case tuple | union | named | interface => exact meets_treeFlagsAll h k
  all_goals exact h ▸ k

theorem Everywhere.of_not_meets {mask : TypeFlags} (h : t.Everywhere P)
    (hk : ∀ u, P u → u.flags.meets mask = false → Q u) (hm : t.flags.meets mask = false) :
    t.Everywhere Q := by
  induction h with
  | intro here below ih =>
    refine .intro (hk _ here hm) fun u hu => ih u hu (Bool.eq_false_iff.mpr fun k => ?_)
    exact Bool.eq_false_iff.mp hm (meets_flags_of_part hu k)

theorem Everywhere.replace {mask : TypeFlags} {leaf : Ty → Option Ty} (L : Closed (Everywhere P))
    (h : t.Everywhere Q) (hleafless : ∀ u, Q u → leaf u = none → u.parts = [] → P u)
    (hnamed : ∀ d ts, Q (.named d ts) → leaf (.named d ts) = none → P (.named d (replaceAll mask leaf ts)))
    (hinterface : ∀ d ts, Q (.interface d ts) → leaf (.interface d ts) = none →
      P (.interface d (replaceAll mask leaf ts)))
    (hskip : ∀ u, Q u → u.flags.meets mask = false → P u)
    (hleaf : ∀ u v, leaf u = some v → v.Everywhere P) : (t.replace mask leaf).Everywhere P := by
  induction t using Ty.parts_induction with
  | h t ih =>
    have hpart : ∀ u ∈ t.parts, (u.replace mask leaf).Everywhere P := fun u hu => ih u hu (h.part hu)
    have hparts : ∀ ts, (∀ u ∈ ts, u ∈ t.parts) → ∀ v ∈ replaceAll mask leaf ts, v.Everywhere P := by
      intro ts hts v hv
      rw [replaceAll_eq_map] at hv
      obtain ⟨u, hu, rfl⟩ := List.mem_map.mp hv
      exact hpart u (hts u hu)
    rw [replace.eq_def]
    split
    · split
      · next v hv => exact hleaf t v hv
      · next hnone =>
        cases t with
        | map | result =>
          exact L.pair rfl rfl (hpart _ (by simp [Ty.parts])) (hpart _ (by simp [Ty.parts]))
        | tuple => exact L.mkTuple (hparts _ fun _ => id)
        | union => exact L.mkUnion (hparts _ fun _ => id)
        | function ps v r =>
          refine L.build rfl fun u hu => ?_
          rcases List.mem_cons.mp hu with rfl | hu
          · exact hpart r (by simp [Ty.parts])
          · exact hparts ps (fun w hw => by simp [Ty.parts, hw]) u hu
        | named d ts => exact .intro (hnamed d ts h.node hnone) (hparts ts fun _ => id)
        | interface d ts => exact .intro (hinterface d ts h.node hnone) (hparts ts fun _ => id)
        | pointer | reference | fixedArray | dynArray | option | channel =>
          exact L.single rfl rfl (hpart _ (by simp [Ty.parts]))
        | _ => exact .intro (hleafless _ h.node hnone rfl) (List.forall_mem_nil _)
    · next hmeets => exact h.of_not_meets hskip (Bool.eq_false_iff.mpr hmeets)

structure ByHead (P : Ty → Prop) : Prop where
  structural : ∀ {t : Ty}, t.isStructural = true → P t
  named : ∀ {d ts us}, P (.named d ts) → us.length = ts.length → P (.named d us)
  interface : ∀ {d ts us}, P (.interface d ts) → us.length = ts.length → P (.interface d us)

namespace ByHead

variable {P Q : Ty → Prop} (hP : ByHead P)

include hP

theorem closed : Closed (Everywhere P) where
  part h k := h.part k
  build h k := .intro (hP.structural h) k

theorem replace {mask : TypeFlags} {leaf : Ty → Option Ty} {t : Ty} (h : t.Everywhere Q)
    (hkeep : ∀ u, Q u → leaf u = none → P u) (hskip : ∀ u, Q u → u.flags.meets mask = false → P u)
    (hleaf : ∀ u v, leaf u = some v → v.Everywhere P) : (t.replace mask leaf).Everywhere P := by
  have hlength (ts : List Ty) : (replaceAll mask leaf ts).length = ts.length := by
    rw [replaceAll_eq_map, List.length_map]
  refine h.replace hP.closed (fun u hu hnone _ => hkeep u hu hnone) (fun d ts hu hnone => ?_)
    (fun d ts hu hnone => ?_) hskip hleaf
  · exact hP.named (hkeep _ hu hnone) (hlength ts)
  · exact hP.interface (hkeep _ hu hnone) (hlength ts)

theorem substParams {args : List Ty} {t : Ty} (h : t.Everywhere P) (ha : ∀ a ∈ args, a.Everywhere P) :
    (t.substParams args).Everywhere P := by
  unfold Ty.substParams
  split
  · exact h
  · refine hP.replace h (fun _ hu _ => hu) (fun _ hu _ => hu) fun u v hv => ?_
    cases u <;> simp only [Ty.paramLeaf, reduceCtorEq] at hv
    exact ha v (List.mem_of_getElem? hv)

end ByHead

end Ty

inductive DeclForm where
  | struct
  | enum
  | interface
  deriving DecidableEq

structure DeclShape where
  form : DeclForm
  params : List Ty
  deriving DecidableEq

def DeclShape.arity (s : DeclShape) : Nat := s.params.length

abbrev Outline := List DeclShape

def DeclKind.form : DeclKind → DeclForm
  | .struct .. => .struct
  | .enum .. => .enum
  | .interface .. => .interface

def Generics.tys (gs : Generics) : List Ty := gs.map (·.ty)

theorem Generics.length_tys (gs : Generics) : gs.tys.length = gs.length := List.length_map _

def DeclInfo.shape (d : DeclInfo) : DeclShape := ⟨d.kind.form, d.generics.tys⟩

theorem DeclInfo.arity_shape (d : DeclInfo) : d.shape.arity = d.generics.length := d.generics.length_tys

def Registry.outline (r : Registry) : Outline := r.decls.map (·.shape)

theorem Registry.getElem?_outline {r : Registry} {d : DeclId} {info : DeclInfo}
    (h : r.decl? d = some info) : r.outline[d]? = some info.shape := by
  unfold Registry.outline
  rw [List.getElem?_map]
  exact congrArg (Option.map DeclInfo.shape) h

theorem DeclInfo.isInterface_iff {d : DeclInfo} : d.isInterface = true ↔ d.shape.form = .interface := by
  unfold DeclInfo.isInterface DeclInfo.shape DeclKind.form
  cases d.kind <;> simp

namespace Outline

def Admits (o : Outline) : Ty → Prop
  | .var _ => False
  | .named d args => ∃ s, o[d]? = some s ∧ s.form ≠ .interface ∧ args.length = s.arity
  | .interface d args => ∃ s, o[d]? = some s ∧ s.form = .interface ∧ args.length = s.arity
  | _ => True

def WellFormed (o : Outline) (t : Ty) : Prop := t.Everywhere o.Admits

variable {o : Outline}

theorem admits_structural {t : Ty} (h : t.isStructural = true) : o.Admits t := by
  cases t <;> first | exact True.intro | cases h

theorem byHead_admits : Ty.ByHead o.Admits where
  structural := admits_structural
  named h k := by
    obtain ⟨s, hs, hform, harity⟩ := h
    exact ⟨s, hs, hform, k.trans harity⟩
  interface h k := by
    obtain ⟨s, hs, hform, harity⟩ := h
    exact ⟨s, hs, hform, k.trans harity⟩

theorem varFree_of_wellFormed {t : Ty} (h : o.WellFormed t) : t.VarFree :=
  h.imp fun _ hu _ hi => nomatch hi ▸ hu

end Outline

def Ty.Positioned (ps : List Ty) : Prop := ∀ (k : Nat) (t : Ty), ps[k]? = some t → ∃ x, t = .param x k

theorem Ty.Positioned.take {ps : List Ty} (h : Positioned ps) (n : Nat) : Positioned (ps.take n) := by
  intro k t hk
  rw [List.getElem?_take] at hk
  split at hk
  · exact h k t hk
  · cases hk

theorem Ty.Positioned.lt_length {ps : List Ty} (h : Positioned ps) {x : String} {i : Nat}
    (k : .param x i ∈ ps) : i < ps.length := by
  obtain ⟨j, hj⟩ := List.getElem?_of_mem k
  obtain ⟨y, heq⟩ := h j _ hj
  cases heq
  exact (List.getElem?_eq_some_iff.mp hj).1

def Ty.KnownTo (ps : List Ty) (t : Ty) : Prop := ∀ x i, t = .param x i → t ∈ ps

namespace Outline

def Typed (o : Outline) (p : Prop) (ps : List Ty) (t : Ty) : Prop :=
  t.Everywhere fun u => o.Admits u ∧ (p → u.KnownTo ps)

variable {o : Outline} {p : Prop} {ps qs : List Ty} {t : Ty}

theorem knownTo_structural (h : t.isStructural = true) : t.KnownTo ps := by
  rintro x i rfl
  cases h

theorem byHead_typed : Ty.ByHead fun u => o.Admits u ∧ (p → u.KnownTo ps) where
  structural h := ⟨admits_structural h, fun _ => knownTo_structural h⟩
  named h k := ⟨byHead_admits.named h.1 k, fun _ _ _ => nofun⟩
  interface h k := ⟨byHead_admits.interface h.1 k, fun _ _ _ => nofun⟩

theorem closed_typed : Ty.Closed (o.Typed p ps) := byHead_typed.closed

theorem typed_param {x : String} {i : Nat} (h : .param x i ∈ ps) : o.Typed p ps (.param x i) :=
  .intro ⟨True.intro, fun _ _ _ _ => h⟩ nofun

theorem typed_error : o.Typed p ps .error := .intro ⟨True.intro, fun _ _ _ => nofun⟩ nofun

theorem typed_of_isUntyped (h : t.isUntyped = true) : o.Typed p ps t := by
  cases t
  case untypedNone | untypedNil => exact .intro ⟨True.intro, fun _ _ _ => nofun⟩ nofun
  all_goals cases h

theorem Typed.wellFormed (h : o.Typed p ps t) : o.WellFormed t := h.imp fun _ => And.left

theorem Typed.mono (h : o.Typed p ps t) (hsub : p → ps ⊆ qs) : o.Typed p qs t :=
  h.imp fun _ hu => ⟨hu.1, fun hp x i heq => hsub hp (hu.2 hp x i heq)⟩

theorem Typed.of_nil (h : o.Typed p [] t) : o.Typed p ps t := h.mono fun _ => List.nil_subset _

theorem Typed.substParams {args : List Ty} (h : o.Typed p ps t) (hps : Ty.Positioned ps)
    (hlength : args.length = ps.length) (ha : ∀ a ∈ args, o.Typed p qs a) :
    o.Typed p qs (t.substParams args) := by
  unfold Ty.substParams
  split
  · next hempty =>
    have hnil : ps = [] := by
      rw [← List.length_eq_zero_iff, ← hlength, List.isEmpty_iff.mp hempty]
      rfl
    subst hnil
    exact h.of_nil
  · refine byHead_typed.replace h (fun u hu hnone => ⟨hu.1, fun hp x i heq => ?_⟩)
      (fun u hu hskip => ⟨hu.1, fun _ x i heq => ?_⟩) fun u v hv => ?_
    · subst heq
      have hlt := hps.lt_length (hu.2 hp x i rfl)
      simp only [Ty.paramLeaf, List.getElem?_eq_none_iff] at hnone
      omega
    · subst heq
      rw [Ty.flags_eq_treeFlags] at hskip
      cases hskip
    · cases u <;> simp only [Ty.paramLeaf, reduceCtorEq] at hv
      exact ha v (List.mem_of_getElem? hv)

end Outline

def Registry.Declares (r : Registry) : Ty → Prop
  | .named d args =>
    ∃ info, r.decl? d = some info ∧ info.isInterface = false ∧ args.length = info.generics.length
  | .interface d args =>
    ∃ info, r.decl? d = some info ∧ info.isInterface = true ∧ args.length = info.generics.length
  | _ => True

theorem Registry.declares_of_admits {r : Registry} {t : Ty} (h : r.outline.Admits t) :
    (∀ v, t ≠ .var v) ∧ r.Declares t := by
  have hinfo {d : DeclId} {s : DeclShape} (hs : r.outline[d]? = some s) :
      ∃ info, r.decl? d = some info ∧ info.shape = s := by
    rw [outline, List.getElem?_map] at hs
    exact Option.map_eq_some_iff.mp hs
  cases t with
  | var v => exact h.elim
  | named d args =>
    obtain ⟨s, hs, hform, harity⟩ := h
    obtain ⟨info, hd, rfl⟩ := hinfo hs
    refine ⟨nofun, info, hd, ?_, harity.trans info.arity_shape⟩
    exact Bool.eq_false_iff.mpr fun hi => hform (DeclInfo.isInterface_iff.mp hi)
  | interface d args =>
    obtain ⟨s, hs, hform, harity⟩ := h
    obtain ⟨info, hd, rfl⟩ := hinfo hs
    exact ⟨nofun, info, hd, DeclInfo.isInterface_iff.mpr hform, harity.trans info.arity_shape⟩
  | _ => exact ⟨nofun, True.intro⟩

end TypeFlow
