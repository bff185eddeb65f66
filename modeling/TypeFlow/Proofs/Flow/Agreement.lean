import Mathlib.Data.List.Nodup
import TypeFlow.Proofs.Flow.Merging
import TypeFlow.Proofs.Flow.Refinement

namespace TypeFlow

namespace Layer

inductive Reachable (r : Registry) : Layer → Prop
  | empty : Reachable r {}
  | apply {l : Layer} (f : FlowFact) (h : Reachable r l) : Reachable r (l.apply r f)
  | invalidate {l : Layer} (p : Path) (h : Reachable r l) : Reachable r (l.invalidate p)
  | merge {l m : Layer} (hl : Reachable r l) (hm : Reachable r m) : Reachable r (l.merge r m)

end Layer

structure Narrowing.Tidy (n : Narrowing) : Prop where
  refines : n.isTrivial = false
  excluded : n.excluded.Pairwise Ty.Lt

structure Narrowing.Shared (a b n : Narrowing) : Prop where
  declared : n.declared = a.declared ∧ n.declared = b.declared
  ty : n.ty = a.ty ∨ n.ty = b.ty
  excluded : ∀ t, t ∈ n.excluded ↔ t ∈ a.excluded ∧ t ∈ b.excluded

structure Layer.Tidy (l : Layer) : Prop where
  paths : (l.entries.map (·.1)).Nodup
  entries : ∀ e ∈ l.entries, e.2.Tidy

namespace Narrowing

variable {r : Registry} {a b n : Narrowing}

theorem isTrivial_eq_false_iff : n.isTrivial = false ↔ n.ty ≠ n.declared ∨ n.excluded ≠ [] := by
  rw [isTrivial, Bool.and_eq_false_iff, beq_eq_false_iff_ne, List.isEmpty_eq_false_iff]

theorem pairwise_excluded_refine (h : n.excluded.Pairwise Ty.Lt) (f : Fact) :
    (n.refine r f).excluded.Pairwise Ty.Lt := by
  cases f with
  | isNot t => exact Ty.pairwise_insertSorted t h
  | _ => exact h

theorem merge_self (n : Narrowing) : n.merge r n = some n := by
  have hexcluded : n.excluded.filter n.excludes = n.excluded :=
    List.filter_eq_self.mpr fun _ ht => List.contains_iff_mem.mpr ht
  simp [merge, hexcluded]

theorem shared_of_merge (h : a.merge r b = some n) : Shared a b n := by
  have hfilter (t : Ty) : t ∈ a.excluded.filter b.excludes ↔ t ∈ a.excluded ∧ t ∈ b.excluded := by
    rw [List.mem_filter]
    exact and_congr_right fun _ => List.contains_iff_mem
  unfold merge at h
  split at h
  · cases h
  · next hdeclared =>
    have hsame : a.declared = b.declared := by simpa using hdeclared
    split at h
    · cases h
      exact ⟨⟨rfl, hsame⟩, .inl rfl, hfilter⟩
    · split at h
      · cases h
        exact ⟨⟨rfl, hsame⟩, .inr rfl, hfilter⟩
      · cases h

theorem pairwise_excluded_merge (h : a.merge r b = some n) (ha : a.excluded.Pairwise Ty.Lt) :
    n.excluded.Pairwise Ty.Lt := by
  have hfilter : (a.excluded.filter b.excludes).Pairwise Ty.Lt := ha.filter b.excludes
  unfold merge at h
  split at h
  · cases h
  · split at h
    · cases h
      exact hfilter
    · split at h
      · cases h
        exact hfilter
      · cases h

end Narrowing

namespace Layer

variable {r : Registry} {l m : Layer} {p : Path} {n : Narrowing}

theorem tidy_empty : ({} : Layer).Tidy := ⟨.nil, nofun⟩

theorem Tidy.filter (h : l.Tidy) (keep : Path × Narrowing → Bool) : Tidy ⟨l.entries.filter keep⟩ :=
  ⟨h.paths.sublist (List.filter_sublist.map _), fun e he => h.entries e (List.mem_filter.mp he).1⟩

theorem Tidy.set (h : l.Tidy) (p : Path) (hn : n.excluded.Pairwise Ty.Lt) : (l.set p n).Tidy := by
  have herase : (l.erase p).Tidy := h.filter _
  unfold Layer.set
  split
  · exact herase
  · next htrivial =>
    refine ⟨List.nodup_cons.mpr ⟨fun hmem => ?_, herase.paths⟩, ?_⟩
    · obtain ⟨e, he, heq⟩ := List.mem_map.mp hmem
      exact bne_iff_ne.mp (List.mem_filter.mp he).2 heq
    · exact List.forall_mem_cons.mpr ⟨⟨Bool.eq_false_iff.mpr htrivial, hn⟩, herase.entries⟩

theorem Tidy.view (h : l.Tidy) (p : Path) (d : Ty) : (l.view p d).excluded.Pairwise Ty.Lt := by
  rcases view_cases (l := l) p d with hmem | hnew
  · exact (h.entries _ hmem).excluded
  · rw [hnew]
    exact .nil

theorem Tidy.merge (h : l.Tidy) (m : Layer) : (l.merge r m).Tidy := by
  have hpath (e k : Path × Narrowing) (hk : mergeEntry r m e = some k) : k.1 = e.1 := by
    unfold mergeEntry at hk
    split at hk
    · cases hk
    · split at hk
      · split at hk <;> cases hk
        rfl
      · cases hk
  refine ⟨?_, fun e he => ?_⟩
  · have hsublist : ((l.merge r m).entries.map (·.1)).Sublist (l.entries.map (·.1)) := by
      unfold Layer.merge
      induction l.entries with
      | nil => exact .slnil
      | cons e es ih =>
        rw [List.filterMap_cons]
        split
        · exact ih.cons _
        · next k hk =>
          rw [List.map_cons, List.map_cons, hpath e k hk]
          exact ih.cons_cons _
    exact h.paths.sublist hsublist
  · obtain ⟨a, b, hmeets⟩ := mem_merge_iff.mp he
    exact ⟨hmeets.kept, Narrowing.pairwise_excluded_merge hmeets.merge (h.entries _ hmeets.left).excluded⟩

theorem Reachable.tidy (h : l.Reachable r) : l.Tidy := by
  induction h with
  | empty => exact tidy_empty
  | apply f _ ih => exact ih.set f.path (Narrowing.pairwise_excluded_refine (ih.view _ _) f.fact)
  | invalidate p _ ih => exact ih.filter _
  | merge _ _ ihl _ => exact ihl.merge _

theorem Tidy.get_eq_some_iff (h : l.Tidy) : l.get p = some n ↔ (p, n) ∈ l.entries := by
  refine ⟨mem_of_lookup, fun hmem => ?_⟩
  obtain ⟨k, hk⟩ := Option.isSome_iff_exists.mp (isSome_lookup_of_mem hmem)
  have hsame : (p, k) = (p, n) := List.inj_on_of_nodup_map h.paths (mem_of_lookup hk) hmem rfl
  rw [get, hk, (Prod.mk.inj hsame).2]

theorem Tidy.get_merge_iff (h : l.Tidy) :
    (l.merge r m).get p = some n ↔
      ∃ a b, l.get p = some a ∧ m.get p = some b ∧ a.merge r b = some n ∧ n.isTrivial = false := by
  rw [(h.merge m).get_eq_some_iff, mem_merge_iff]
  constructor
  · rintro ⟨a, b, hmeets⟩
    exact ⟨a, b, h.get_eq_some_iff.mpr hmeets.left, hmeets.right, hmeets.merge, hmeets.kept⟩
  · rintro ⟨a, b, ha, hb, hmerge, hkept⟩
    exact ⟨a, b, h.get_eq_some_iff.mp ha, hb, hmerge, hkept⟩

theorem Tidy.merge_self (h : l.Tidy) : l.merge r l = l := by
  have hentry : ∀ e ∈ l.entries, mergeEntry r l e = some e := by
    intro e he
    have hget : l.get e.1 = some e.2 := h.get_eq_some_iff.mpr he
    simp [mergeEntry, hget, Narrowing.merge_self, (h.entries e he).refines]
  exact congrArg Layer.mk ((List.filterMap_congr hentry).trans List.filterMap_some)

theorem merge_of_reachable (h : l.Reachable r) :
    (∀ p n, l.get p = some n → (n.ty ≠ n.declared ∨ n.excluded ≠ []) ∧ n.excluded.Pairwise Ty.Lt) ∧
      l.merge r l = l ∧
      ∀ p, (l.get p = none ∨ m.get p = none → (l.merge r m).get p = none) ∧
        (∀ n, l.get p = some n → m.get p = some n → (l.merge r m).get p = some n) ∧
        ∀ a b, l.get p = some a → m.get p = some b → ∀ n, (l.merge r m).get p = some n → a.Shared b n := by
  have htidy := h.tidy
  have hentry {p : Path} {n : Narrowing} (hn : l.get p = some n) : n.Tidy :=
    htidy.entries _ (htidy.get_eq_some_iff.mp hn)
  refine ⟨fun p n hn => ?_, htidy.merge_self, fun p => ⟨fun hnone => ?_, fun n hl hm => ?_, ?_⟩⟩
  · exact ⟨Narrowing.isTrivial_eq_false_iff.mp (hentry hn).refines, (hentry hn).excluded⟩
  · refine Option.eq_none_iff_forall_ne_some.mpr fun n hn => ?_
    obtain ⟨a, b, ha, hb, -⟩ := htidy.get_merge_iff.mp hn
    rcases hnone with hnone | hnone
    · cases hnone.symm.trans ha
    · cases hnone.symm.trans hb
  · exact htidy.get_merge_iff.mpr ⟨n, n, hl, hm, n.merge_self, (hentry hl).refines⟩
  · intro a b ha hb n hn
    obtain ⟨a', b', ha', hb', hmerge, -⟩ := htidy.get_merge_iff.mp hn
    cases ha.symm.trans ha'
    cases hb.symm.trans hb'
    exact Narrowing.shared_of_merge hmerge

theorem merge_of_reachable_arms :
    (armOf (.is (.prim .i32))).Reachable {} ∧
      (armOf (.is (.prim .i32))).merge {} (armOf (.is (.prim .i32))) = armOf (.is (.prim .i32)) ∧
        Narrowing.Shared ⟨.union [.prim .i32, .prim .i64], .prim .i32, []⟩
          ⟨.union [.prim .i32, .prim .i64], .prim .i64, [.prim .i32]⟩
          ⟨.union [.prim .i32, .prim .i64], .prim .i64, []⟩ := by
  have hreachable : (armOf (.is (.prim .i32))).Reachable {} := .apply _ .empty
  obtain ⟨-, hself, hshared⟩ := merge_of_reachable (m := armOf (.isNot (.prim .i32))) hreachable
  exact ⟨hreachable, hself, (hshared ⟨"x", []⟩).2.2 _ _ rfl rfl _ rfl⟩

end Layer

end TypeFlow
