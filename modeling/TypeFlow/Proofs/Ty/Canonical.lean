import TypeFlow.Proofs.Ty.Occurrence

namespace TypeFlow

namespace Ty

def Single (t : Ty) : Prop := t.isUnion = false ∧ t ≠ .never

def Proper : Ty → Prop
  | tuple ts => 2 ≤ ts.length
  | union ts => 2 ≤ ts.length ∧ ts.Pairwise Lt ∧ ∀ t ∈ ts, t.Single
  | _ => True

abbrev Canonical (t : Ty) : Prop := t.Everywhere Proper

inductive MemberOf (u : Ty) : Ty → Prop
  | self (h : u.Single) : MemberOf u u
  | under {t : Ty} {ts : List Ty} (h : t ∈ ts) (k : u.MemberOf t) : MemberOf u (.union ts)

variable {t u : Ty} {ts us vs : List Ty}

theorem nodup_sorted (ts : List Ty) : (sorted ts).Nodup := (pairwise_sorted ts).imp fun h => h.2

theorem eq_of_pairwise_lt (ht : ts.Pairwise Lt) (hu : us.Pairwise Lt) (h : ∀ t, t ∈ ts ↔ t ∈ us) : ts = us := by
  have hnodup {vs : List Ty} (hvs : vs.Pairwise Lt) : vs.Nodup := hvs.imp fun h => h.2
  have hperm : ts.Perm us := (List.perm_ext_iff_of_nodup (hnodup ht) (hnodup hu)).mpr h
  exact hperm.eq_of_pairwise (fun _ _ _ _ h k => le_antisymm h.1 k.1) ht hu

theorem sorted_congr (h : ∀ t, t ∈ ts ↔ t ∈ us) : sorted ts = sorted us :=
  eq_of_pairwise_lt (pairwise_sorted ts) (pairwise_sorted us) fun t => by rw [mem_sorted, mem_sorted, h]

theorem sorted_eq_self (h : ts.Pairwise Lt) : sorted ts = ts :=
  eq_of_pairwise_lt (pairwise_sorted ts) h fun _ => mem_sorted

theorem mkTuple_eq_tuple (h : 2 ≤ ts.length) : mkTuple ts = tuple ts := by
  match ts with
  | [] => cases h
  | [_] => cases Nat.le_of_succ_le_succ h
  | _ :: _ :: _ => rfl

theorem ofMembers_eq_union (h : 2 ≤ ts.length) : ofMembers ts = union ts := by
  match ts with
  | [] => cases h
  | [_] => cases Nat.le_of_succ_le_succ h
  | _ :: _ :: _ => rfl

theorem unionParts_of_single (h : t.Single) : t.unionParts = [t] := by
  cases t with
  | never => exact absurd rfl h.2
  | union => cases h.1
  | _ => rfl

theorem unionParts_ofMembers (h : ∀ t ∈ ts, t.Single) : (ofMembers ts).unionParts = ts := by
  match ts with
  | [] => rfl
  | [t] => exact unionParts_of_single (h t (List.mem_singleton_self t))
  | _ :: _ :: _ => rfl

theorem flatMap_unionParts (h : ∀ t ∈ ts, t.Single) : ts.flatMap unionParts = ts := by
  induction ts with
  | nil => rfl
  | cons t ts ih =>
    obtain ⟨ht, hts⟩ := List.forall_mem_cons.mp h
    rw [List.flatMap_cons, unionParts_of_single ht, ih hts]
    rfl

namespace Canonical

theorem leaf (h : t.Proper) (k : t.parts = []) : t.Canonical := .intro h (k ▸ List.forall_mem_nil _)

theorem single (h : t.Proper) (k : t.parts = [u]) (hu : u.Canonical) : t.Canonical :=
  .intro h (k ▸ List.forall_mem_singleton.mpr hu)

theorem pair {v : Ty} (h : t.Proper) (k : t.parts = [u, v]) (hu : u.Canonical) (hv : v.Canonical) : t.Canonical :=
  .intro h (k ▸ List.forall_mem_cons.mpr ⟨hu, List.forall_mem_singleton.mpr hv⟩)

theorem single_of_mem_unionParts (h : t.Canonical) (hu : u ∈ t.unionParts) : u.Single := by
  cases t with
  | union ts => exact h.node.2.2 u hu
  | never => cases hu
  | _ => exact List.mem_singleton.mp hu ▸ ⟨rfl, nofun⟩

theorem of_mem_unionParts (h : t.Canonical) (hu : u ∈ t.unionParts) : u.Canonical := by
  cases t with
  | union ts => exact h.part hu
  | never => cases hu
  | _ => exact List.mem_singleton.mp hu ▸ h

theorem mkTuple (h : ∀ t ∈ ts, t.Canonical) : (mkTuple ts).Canonical := by
  match ts with
  | [] => exact .leaf True.intro rfl
  | [t] => exact h t (List.mem_singleton_self t)
  | _ :: _ :: _ => exact .intro (Nat.le_add_left 2 _) h

theorem ofMembers (hsingle : ∀ t ∈ ts, t.Single) (horder : ts.Pairwise Lt) (h : ∀ t ∈ ts, t.Canonical) :
    (ofMembers ts).Canonical := by
  match ts with
  | [] => exact .leaf True.intro rfl
  | [t] => exact h t (List.mem_singleton_self t)
  | _ :: _ :: _ => exact .intro ⟨Nat.le_add_left 2 _, horder, hsingle⟩ h

end Canonical

section Unions

variable (h : ∀ t ∈ ts, t.Canonical)

include h

theorem single_of_mem_flatMap : ∀ u ∈ ts.flatMap unionParts, u.Single := by
  intro u hu
  obtain ⟨t, ht, hut⟩ := List.mem_flatMap.mp hu
  exact (h t ht).single_of_mem_unionParts hut

theorem Canonical.mkUnion : (mkUnion ts).Canonical := by
  refine Canonical.ofMembers (fun u hu => ?_) (pairwise_sorted _) fun u hu => ?_
  · exact single_of_mem_flatMap h u (mem_sorted.mp hu)
  · obtain ⟨t, ht, hut⟩ := List.mem_flatMap.mp (mem_sorted.mp hu)
    exact (h t ht).of_mem_unionParts hut

theorem unionParts_mkUnion : (mkUnion ts).unionParts = sorted (ts.flatMap unionParts) :=
  unionParts_ofMembers fun u hu => single_of_mem_flatMap h u (mem_sorted.mp hu)

theorem mem_unionParts_mkUnion : u ∈ (mkUnion ts).unionParts ↔ ∃ t ∈ ts, u ∈ t.unionParts := by
  rw [unionParts_mkUnion h, mem_sorted, List.mem_flatMap]

end Unions

theorem mem_unionParts_mkUnion_map {f : Ty → Ty} (h : ∀ t ∈ ts, (f t).Canonical) :
    u ∈ (mkUnion (ts.map f)).unionParts ↔ ∃ t ∈ ts, u ∈ (f t).unionParts := by
  rw [unionParts_mkUnion (List.forall_mem_map.mpr h), mem_sorted, List.flatMap_map, List.mem_flatMap]

theorem mkUnion_congr (h : ∀ u, (∃ t ∈ ts, u ∈ t.unionParts) ↔ ∃ t ∈ us, u ∈ t.unionParts) :
    mkUnion ts = mkUnion us := by
  have hmem (u : Ty) : u ∈ ts.flatMap unionParts ↔ u ∈ us.flatMap unionParts := by
    rw [List.mem_flatMap, List.mem_flatMap, h]
  rw [mkUnion, mkUnion, sorted_congr hmem]

theorem mkUnion_eq_union (h : (union ts).Proper) : mkUnion ts = union ts := by
  obtain ⟨hlength, horder, hsingle⟩ := h
  rw [mkUnion, flatMap_unionParts hsingle, sorted_eq_self horder, ofMembers_eq_union hlength]

theorem mkUnion_singleton (h : t.Canonical) : mkUnion [t] = t := by
  cases t with
  | union ts =>
    have hflat : [union ts].flatMap unionParts = ts := List.append_nil ts
    obtain ⟨hlength, horder, -⟩ := h.node
    rw [mkUnion, hflat, sorted_eq_self horder, ofMembers_eq_union hlength]
  | _ => rfl

theorem memberOf_iff (h : t.Canonical) : u.MemberOf t ↔ u ∈ t.unionParts := by
  constructor
  · intro k
    induction k with
    | self hu => exact unionParts_of_single hu ▸ List.mem_singleton_self u
    | @under t ts ht k ih =>
      have hu := ih (h.part ht)
      rw [unionParts_of_single (h.node.2.2 t ht)] at hu
      exact List.mem_singleton.mp hu ▸ ht
  · intro k
    have hu := h.single_of_mem_unionParts k
    cases t with
    | union ts => exact .under k (.self hu)
    | never => cases k
    | _ => exact List.mem_singleton.mp k ▸ .self (List.mem_singleton.mp k ▸ hu)

theorem mkUnion_eq_iff (ht : ∀ t ∈ ts, t.Canonical) (hu : ∀ u ∈ us, u.Canonical) :
    mkUnion ts = mkUnion us ↔ ∀ u : Ty, (∃ t ∈ ts, u.MemberOf t) ↔ ∃ t ∈ us, u.MemberOf t := by
  have hmember {vs : List Ty} (hv : ∀ v ∈ vs, v.Canonical) (u : Ty) :
      (∃ v ∈ vs, u.MemberOf v) ↔ ∃ v ∈ vs, u ∈ v.unionParts :=
    exists_congr fun v => and_congr_right fun k => memberOf_iff (hv v k)
  rw [forall_congr' fun u => iff_congr (hmember ht u) (hmember hu u)]
  constructor
  · intro h u
    rw [← mem_unionParts_mkUnion ht, ← mem_unionParts_mkUnion hu, h]
  · exact mkUnion_congr

theorem mkUnion_flatten (hu : ∀ u ∈ us, u.Canonical) :
    mkUnion (ts ++ [mkUnion us] ++ vs) = mkUnion (ts ++ us ++ vs) := by
  refine mkUnion_congr fun t => ?_
  simp only [List.mem_append, List.mem_singleton, or_and_right, exists_or, exists_eq_left,
    mem_unionParts_mkUnion hu]

inductive Makes : List Ty → Ty → Prop
  | fixed {t : Ty} (h : t ∈ fixedTypes) : Makes [] t
  | param (x : String) (i : Nat) : Makes [] (.param x i)
  | var (i : Nat) : Makes [] (.var i)
  | const (c : ConstValue) : Makes [] (.const c)
  | pointer (m : Bool) (t : Ty) : Makes [t] (.pointer m t)
  | reference (m : Bool) (t : Ty) : Makes [t] (.reference m t)
  | fixedArray (n : Nat) (t : Ty) : Makes [t] (.fixedArray n t)
  | dynArray (t : Ty) : Makes [t] (.dynArray t)
  | map (k v : Ty) : Makes [k, v] (.map k v)
  | tuple (ts : List Ty) : Makes ts (.mkTuple ts)
  | function (ps : List Ty) (v : Bool) (t : Ty) : Makes (t :: ps) (.function ps v t)
  | option (t : Ty) : Makes [t] (.option t)
  | result (t e : Ty) : Makes [t, e] (.result t e)
  | channel (t : Ty) : Makes [t] (.channel t)
  | named (d : DeclId) (ts : List Ty) : Makes ts (.named d ts)
  | interface (d : DeclId) (ts : List Ty) : Makes ts (.interface d ts)
  | union (ts : List Ty) : Makes ts (.mkUnion ts)

inductive Built : Ty → Prop
  | call {ts : List Ty} {t : Ty} (h : Makes ts t) (hts : ∀ u ∈ ts, Built u) : Built t

namespace Built

theorem fixed (h : t ∈ fixedTypes) : t.Built := .call (.fixed h) nofun

theorem param (x : String) (i : Nat) : (param x i).Built := .call (.param x i) nofun

theorem option (h : t.Built) : (option t).Built := .call (.option t) (List.forall_mem_singleton.mpr h)

theorem mkUnion (h : ∀ t ∈ ts, t.Built) : (mkUnion ts).Built := .call (.union ts) h

end Built

theorem proper_of_mem_fixedTypes : ∀ t ∈ fixedTypes, t.Proper ∧ t.parts = [] := by
  refine List.forall_mem_append.mpr ⟨List.forall_mem_map.mpr fun p _ => ⟨True.intro, rfl⟩, ?_⟩
  simp [Proper, parts]

theorem Makes.canonical (h : Makes ts t) (hts : ∀ u ∈ ts, u.Canonical) : t.Canonical := by
  cases h with
  | fixed h =>
    obtain ⟨hproper, hparts⟩ := proper_of_mem_fixedTypes t h
    exact .leaf hproper hparts
  | tuple => exact .mkTuple hts
  | union => exact .mkUnion hts
  | _ => exact .intro True.intro hts

theorem Built.canonical (h : t.Built) : t.Canonical := by
  induction h with
  | call h _ ih => exact h.canonical ih

theorem makes_parts (h : t.Proper) : Makes t.parts t := by
  cases t with
  | tuple ts =>
    have hmakes := Makes.tuple ts
    rwa [mkTuple_eq_tuple h] at hmakes
  | union ts =>
    have hmakes := Makes.union ts
    rwa [mkUnion_eq_union h] at hmakes
  | prim p => exact .fixed (by cases p <;> decide)
  | unit | never | error | untypedNone | untypedNil => exact .fixed (by decide)
  | param x i => exact .param x i
  | var i => exact .var i
  | const c => exact .const c
  | _ => constructor

theorem Canonical.built (h : t.Canonical) : t.Built := by
  induction h with
  | intro here _ ih => exact .call (makes_parts here) ih

end Ty

end TypeFlow
