import TypeFlow.Proofs.Ty.Canonical

namespace TypeFlow

namespace Ty

mutual

def rewrite (leaf : Ty → Option Ty) (t : Ty) : Ty :=
  match leaf t with
  | some r => r
  | none =>
    match t with
    | pointer m a => pointer m (rewrite leaf a)
    | reference m a => reference m (rewrite leaf a)
    | fixedArray n a => fixedArray n (rewrite leaf a)
    | dynArray a => dynArray (rewrite leaf a)
    | map k v => map (rewrite leaf k) (rewrite leaf v)
    | tuple ts => mkTuple (rewriteAll leaf ts)
    | function ps v r => function (rewriteAll leaf ps) v (rewrite leaf r)
    | option a => option (rewrite leaf a)
    | result a b => result (rewrite leaf a) (rewrite leaf b)
    | channel a => channel (rewrite leaf a)
    | named d ts => named d (rewriteAll leaf ts)
    | interface d ts => interface d (rewriteAll leaf ts)
    | union ts => mkUnion (rewriteAll leaf ts)
    | t => t

def rewriteAll (leaf : Ty → Option Ty) : List Ty → List Ty
  | [] => []
  | t :: ts => rewrite leaf t :: rewriteAll leaf ts

end

theorem rewriteAll_eq_map (leaf : Ty → Option Ty) (ts : List Ty) : rewriteAll leaf ts = ts.map (rewrite leaf) := by
  induction ts with
  | nil => rfl
  | cons t ts ih => rw [rewriteAll, ih, List.map_cons]

def mapParts (f : Ty → Ty) : Ty → Ty
  | pointer m t => pointer m (f t)
  | reference m t => reference m (f t)
  | fixedArray n t => fixedArray n (f t)
  | dynArray t => dynArray (f t)
  | map k v => map (f k) (f v)
  | tuple ts => mkTuple (ts.map f)
  | function ps v t => function (ps.map f) v (f t)
  | option t => option (f t)
  | result t e => result (f t) (f e)
  | channel t => channel (f t)
  | named d ts => named d (ts.map f)
  | interface d ts => interface d (ts.map f)
  | union ts => mkUnion (ts.map f)
  | t => t

variable {f g : Ty → Ty} {t u : Ty} {ts : List Ty}

theorem mapParts_congr (h : ∀ u ∈ t.parts, f u = g u) : t.mapParts f = t.mapParts g := by
  cases t with
  | pointer m a | reference m a | fixedArray m a => rw [mapParts, mapParts, h a (List.mem_singleton_self a)]
  | dynArray a | option a | channel a => rw [mapParts, mapParts, h a (List.mem_singleton_self a)]
  | map k v | result k v =>
    obtain ⟨hk, hv⟩ := List.forall_mem_cons.mp h
    rw [mapParts, mapParts, hk, hv v (List.mem_singleton_self v)]
  | tuple ts | union ts | named d ts | interface d ts =>
    have hts : ts.map f = ts.map g := List.map_congr_left h
    rw [mapParts, mapParts, hts]
  | function ps v r =>
    obtain ⟨hr, hps⟩ := List.forall_mem_cons.mp h
    rw [mapParts, mapParts, hr, List.map_congr_left hps]
  | _ => rfl

theorem mapParts_id (h : t.Proper) : t.mapParts id = t := by
  cases t with
  | tuple ts => rw [mapParts, List.map_id, mkTuple_eq_tuple h]
  | union ts => rw [mapParts, List.map_id, mkUnion_eq_union h]
  | named | interface => rw [mapParts, List.map_id]
  | function => rw [mapParts, List.map_id, id_eq]
  | _ => rfl

theorem canonical_mapParts (h : ∀ u ∈ t.parts, (f u).Canonical) : (t.mapParts f).Canonical := by
  have hparts : ∀ u ∈ t.parts.map f, u.Canonical := List.forall_mem_map.mpr h
  cases t with
  | tuple ts => exact .mkTuple hparts
  | union ts => exact .mkUnion hparts
  | _ => exact .intro True.intro hparts

variable {leaf leaf' : Ty → Option Ty} {mask : TypeFlags}

theorem rewrite_eq (leaf : Ty → Option Ty) (t : Ty) :
    t.rewrite leaf = (leaf t).getD (t.mapParts (rewrite leaf)) := by
  rw [rewrite.eq_def]
  cases leaf t with
  | some r => rfl
  | none => cases t <;> simp [mapParts, rewriteAll_eq_map]

theorem replace_eq (mask : TypeFlags) (leaf : Ty → Option Ty) (t : Ty) : t.replace mask leaf =
    if t.flags.meets mask then (leaf t).getD (t.mapParts (replace mask leaf)) else t := by
  rw [replace.eq_def]
  split
  · cases leaf t with
    | some r => rfl
    | none => cases t <;> simp [mapParts, replaceAll_eq_map]
  · rfl

theorem Everywhere.of_forall {P : Ty → Prop} (h : ∀ u, P u) : t.Everywhere P := by
  induction t using parts_induction with
  | h t ih => exact .intro (h t) ih

theorem rewrite_congr (h : t.Everywhere fun u => leaf u = leaf' u) : t.rewrite leaf = t.rewrite leaf' := by
  induction h with
  | intro here _ ih => rw [rewrite_eq, rewrite_eq, here, mapParts_congr ih]

theorem rewrite_eq_self (ht : t.Canonical) (h : t.Everywhere fun u => leaf u = none) : t.rewrite leaf = t := by
  induction h with
  | @intro t here _ ih =>
    have hid : ∀ u ∈ t.parts, u.rewrite leaf = id u := fun u hu => ih u hu (ht.part hu)
    rw [rewrite_eq, here, Option.getD_none, mapParts_congr hid, mapParts_id ht.node]

theorem replace_eq_rewrite (hmask : ∀ u, leaf u ≠ none → u.ownFlags.meets mask = true) (ht : t.Canonical) :
    t.replace mask leaf = t.rewrite leaf := by
  induction ht with
  | @intro t here below ih =>
    rw [replace_eq]
    split
    · rw [rewrite_eq, mapParts_congr ih]
    · next hmeets =>
      have hnone := not_meets_flags_iff.mp (Bool.eq_false_iff.mpr hmeets)
      refine (rewrite_eq_self (.intro here below) (hnone.imp fun u hu => ?_)).symm
      exact Classical.byContradiction fun h => hu (hmask u h)

theorem substParams_eq_rewrite (ht : t.Canonical) (args : List Ty) :
    t.substParams args = t.rewrite (paramLeaf args) := by
  by_cases hargs : args = []
  · subst hargs
    have hnone (u : Ty) : paramLeaf [] u = none := by cases u <;> rfl
    exact (rewrite_eq_self ht (.of_forall hnone)).symm
  · rw [substParams_eq_replace hargs]
    refine replace_eq_rewrite (fun u hu => ?_) ht
    cases u <;> first | rfl | exact absurd rfl hu

theorem substVars_eq_rewrite (ht : t.Canonical) (bindings : VarBindings) :
    t.substVars bindings = t.rewrite (varLeaf bindings) := by
  refine replace_eq_rewrite (fun u hu => ?_) ht
  cases u <;> first | rfl | exact absurd rfl hu

end Ty

namespace TypeFlags

variable (f g h : TypeFlags)

theorem union_assoc : (f.union g).union h = f.union (g.union h) := by
  simp [union, Bool.or_assoc]

theorem empty_union : empty.union f = f := by
  simp [union, empty]

theorem union_empty : f.union empty = f := by
  simp [union, empty]

theorem foldl_union (fs : List TypeFlags) : fs.foldl union f = f.union (propagate fs) := by
  induction fs generalizing f with
  | nil => exact (union_empty f).symm
  | cons g fs ih =>
    rw [propagate, List.foldl_cons, List.foldl_cons, ih, ih (empty.union g), empty_union, union_assoc]

theorem propagate_nil : propagate [] = empty := rfl

theorem propagate_cons (fs : List TypeFlags) : propagate (f :: fs) = f.union (propagate fs) := by
  rw [propagate, List.foldl_cons, empty_union, foldl_union]

theorem propagate_append (fs gs : List TypeFlags) :
    propagate (fs ++ gs) = (propagate fs).union (propagate gs) := by
  rw [propagate, List.foldl_append, foldl_union]
  rfl

end TypeFlags

namespace Ty

theorem treeFlagsAll_eq (ts : List Ty) : treeFlagsAll ts = .propagate (ts.map treeFlags) := by
  induction ts with
  | nil => rfl
  | cons t ts ih => rw [treeFlagsAll, ih, List.map_cons, TypeFlags.propagate_cons]

theorem flags_eq (t : Ty) : t.flags = t.ownFlags.union (.propagate (t.children.map flags)) := by
  have hflags : flags = treeFlags := funext flags_eq_treeFlags
  rw [hflags]
  cases t <;>
    simp [treeFlags, ownFlags, children, treeFlagsAll_eq, TypeFlags.propagate_append, TypeFlags.propagate_cons,
      TypeFlags.propagate_nil, TypeFlags.empty_union, TypeFlags.union_empty]

end Ty

end TypeFlow
