import Mathlib.Algebra.Order.BigOperators.Group.Finset
import TypeFlow.Intern.Pool

namespace TypeFlow

namespace Handle

variable {s i : Nat}

theorem toNat_ofParts (hs : s < shardCount) (hi : i ≤ maxSlot.toNat) :
    (ofParts s.toUInt32 i.toUInt32).raw.toNat = s <<< 28 + i := by
  have hshard : s < 16 := hs
  have hslot : i < 2 ^ 28 := Nat.lt_succ_of_le hi
  have hs' : s.toUInt32.toNat = s := UInt32.toNat_ofNat_of_lt' (Nat.lt_trans hshard (by decide))
  have hi' : i.toUInt32.toNat = i := UInt32.toNat_ofNat_of_lt' (Nat.lt_trans hslot (by decide))
  have hword : s <<< 28 < 2 ^ 32 := by
    rw [Nat.shiftLeft_eq]
    omega
  rw [ofParts, UInt32.toNat_or, UInt32.toNat_shiftLeft, hs', hi']
  show s <<< 28 % 2 ^ 32 ||| i = s <<< 28 + i
  rw [Nat.mod_eq_of_lt hword, Nat.shiftLeft_add_eq_or_of_lt hslot]

theorem shard_ofParts (hs : s < shardCount) (hi : i ≤ maxSlot.toNat) :
    (ofParts s.toUInt32 i.toUInt32).shard = s := by
  have hslot : i < 2 ^ 28 := Nat.lt_succ_of_le hi
  rw [shard, UInt32.toNat_shiftRight, toNat_ofParts hs hi]
  show (s <<< 28 + i) >>> 28 = s
  rw [Nat.shiftLeft_eq, Nat.shiftRight_eq_div_pow]
  omega

theorem slot_ofParts (hs : s < shardCount) (hi : i ≤ maxSlot.toNat) :
    (ofParts s.toUInt32 i.toUInt32).slot = i := by
  have hslot : i < 2 ^ 28 := Nat.lt_succ_of_le hi
  rw [slot, UInt32.toNat_and, toNat_ofParts hs hi]
  show (s <<< 28 + i) &&& (2 ^ 28 - 1) = i
  rw [Nat.and_two_pow_sub_one_eq_mod, Nat.shiftLeft_eq]
  omega

end Handle

namespace Pool

variable {α : Type} {shardOf : α → Nat} {p q : Pool α} {a b : α} {h : Handle}

theorem prefix_shardEntries (shardOf : α → Nat) (hpq : p.entries <+: q.entries) (s : Nat) :
    p.shardEntries shardOf s <+: q.shardEntries shardOf s := hpq.filter _

theorem mem_shardEntries (ha : a ∈ p.entries) : a ∈ p.shardEntries shardOf (shardOf a) := by
  simpa [shardEntries] using ha

theorem lookup_extend (hpq : p.entries <+: q.entries) (ha : p.lookup shardOf h = some a) :
    q.lookup shardOf h = some a := by
  obtain ⟨as, has⟩ := prefix_shardEntries shardOf hpq h.shard
  obtain ⟨hlt, -⟩ := List.getElem?_eq_some_iff.mp ha
  rw [lookup, ← has, List.getElem?_append_left hlt]
  exact ha

theorem mem_of_lookup (ha : p.lookup shardOf h = some a) : a ∈ p.entries :=
  List.mem_of_mem_filter (List.mem_of_getElem? ha)

section

variable [DecidableEq α]

theorem entries_insert_of_not_mem (ha : a ∉ p.entries) : (p.insert a).entries = p.entries ++ [a] := by
  rw [insert, if_neg ha]

theorem prefix_insert (p : Pool α) (a : α) : p.entries <+: (p.insert a).entries := by
  by_cases ha : a ∈ p.entries
  · rw [entries_insert_of_mem ha]
  · rw [entries_insert_of_not_mem ha]
    exact List.prefix_append _ _

theorem nodup_insert (hp : p.entries.Nodup) (a : α) : (p.insert a).entries.Nodup := by
  by_cases ha : a ∈ p.entries
  · rwa [entries_insert_of_mem ha]
  · rw [entries_insert_of_not_mem ha, ← List.concat_eq_append]
    exact .concat ha hp

theorem mem_insert_iff : b ∈ (p.insert a).entries ↔ b ∈ p.entries ∨ b = a := by
  by_cases ha : a ∈ p.entries
  · rw [entries_insert_of_mem ha]
    exact ⟨.inl, fun h => h.elim id fun heq => heq ▸ ha⟩
  · simp [entries_insert_of_not_mem ha]

theorem prefix_insertAll (p : Pool α) (as : List α) : p.entries <+: (as.foldl insert p).entries := by
  induction as generalizing p with
  | nil => exact List.prefix_rfl
  | cons a as ih => exact (p.prefix_insert a).trans (ih (p.insert a))

theorem mem_insertAll {as : List α} (ha : a ∈ as) (p : Pool α) : a ∈ (as.foldl insert p).entries := by
  induction as generalizing p with
  | nil => cases ha
  | cons b as ih =>
    rcases List.mem_cons.mp ha with rfl | ha
    · exact (prefix_insertAll _ as).subset (p.mem_insert a)
    · exact ih ha (p.insert b)

theorem handleOf_extend (hpq : p.entries <+: q.entries) (ha : a ∈ p.entries) :
    q.handleOf shardOf a = p.handleOf shardOf a := by
  obtain ⟨as, has⟩ := prefix_shardEntries shardOf hpq (shardOf a)
  rw [handleOf, handleOf, place, place, ← has, List.idxOf_append_of_mem (mem_shardEntries ha)]

end

structure Roomy (shardOf : α → Nat) (p : Pool α) : Prop where
  shard : ∀ a ∈ p.entries, shardOf a < Handle.shardCount
  slot : ∀ s, (p.shardEntries shardOf s).length ≤ Handle.maxSlot.toNat + 1

theorem Roomy.mono (hq : q.Roomy shardOf) (hpq : p.entries <+: q.entries) : p.Roomy shardOf :=
  ⟨fun a ha => hq.shard a (hpq.subset ha),
    fun s => Nat.le_trans (prefix_shardEntries shardOf hpq s).length_le (hq.slot s)⟩

variable [DecidableEq α]

theorem Roomy.insert (hp : p.Roomy shardOf) (hshard : shardOf a < Handle.shardCount)
    (hslot : (p.shardEntries shardOf (shardOf a)).length ≤ Handle.maxSlot.toNat) :
    (p.insert a).Roomy shardOf := by
  by_cases ha : a ∈ p.entries
  · rwa [entries_insert_of_mem ha]
  constructor
  · rw [entries_insert_of_not_mem ha]
    exact List.forall_mem_append.mpr ⟨hp.shard, List.forall_mem_singleton.mpr hshard⟩
  · intro s
    rw [shardEntries, entries_insert_of_not_mem ha, List.filter_append, List.length_append]
    by_cases hs : shardOf a = s
    · subst hs
      exact Nat.add_le_add hslot (List.length_filter_le _ _)
    · have hnone : [a].filter (fun b => shardOf b == s) = [] := by simp [hs]
      rw [hnone]
      exact hp.slot s

theorem Roomy.room (hq : (p.insert a).Roomy shardOf) (ha : a ∉ p.entries) :
    (p.shardEntries shardOf (shardOf a)).length ≤ Handle.maxSlot.toNat := by
  have hlength := hq.slot (shardOf a)
  rw [shardEntries, entries_insert_of_not_mem ha, List.filter_append, List.length_append,
    List.filter_cons_of_pos (by simp), List.length_cons] at hlength
  exact Nat.le_of_succ_le_succ (Nat.le_trans (Nat.add_le_add_left (Nat.succ_pos _) _) hlength)

theorem Roomy.lookup_handleOf (hp : p.Roomy shardOf) (ha : a ∈ p.entries) :
    p.lookup shardOf (p.handleOf shardOf a) = some a := by
  have hmem : a ∈ p.shardEntries shardOf (shardOf a) := mem_shardEntries ha
  have hslot : (p.shardEntries shardOf (shardOf a)).idxOf a ≤ Handle.maxSlot.toNat :=
    Nat.le_of_lt_succ (Nat.lt_of_lt_of_le (List.idxOf_lt_length_of_mem hmem) (hp.slot _))
  rw [lookup, handleOf, place, Handle.shard_ofParts (hp.shard a ha) hslot,
    Handle.slot_ofParts (hp.shard a ha) hslot]
  exact List.getElem?_idxOf hmem

theorem Roomy.handleOf_inj (hp : p.Roomy shardOf) (ha : a ∈ p.entries) (hb : b ∈ p.entries) :
    p.handleOf shardOf a = p.handleOf shardOf b ↔ a = b := by
  refine ⟨fun h => ?_, fun h => h ▸ rfl⟩
  have hlookup := hp.lookup_handleOf ha
  rw [h, hp.lookup_handleOf hb] at hlookup
  exact (Option.some.inj hlookup).symm

theorem Roomy.size_le (hp : p.Roomy shardOf) (hnodup : p.entries.Nodup) :
    p.size ≤ (Handle.maxSlot.toNat + 1) * Handle.shardCount := by
  have hcard : p.entries.toFinset.card = p.size := List.toFinset_card_of_nodup hnodup
  have hfiber : ∀ s ∈ Finset.range Handle.shardCount,
      (p.entries.toFinset.filter fun a => shardOf a = s).card ≤ Handle.maxSlot.toNat + 1 := by
    intro s _
    refine Nat.le_trans ?_ (hp.slot s)
    rw [shardEntries, ← List.toFinset_card_of_nodup (hnodup.filter _), List.toFinset_filter]
    simp
  have hmaps : ∀ a ∈ p.entries.toFinset, shardOf a ∈ Finset.range Handle.shardCount :=
    fun a ha => Finset.mem_range.mpr (hp.shard a (List.mem_toFinset.mp ha))
  have hle := Finset.card_le_mul_card_image_of_maps_to hmaps _ hfiber
  rwa [hcard, Finset.card_range] at hle

end Pool

end TypeFlow
