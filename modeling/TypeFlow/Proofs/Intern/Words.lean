import Mathlib.Data.List.Dedup
import TypeFlow.Intern.Words
import TypeFlow.Proofs.Intern.Pool

namespace TypeFlow

namespace Pool

variable {α : Type} [DecidableEq α] {shardOf : α → Nat} {p : Pool α} {a b : α}

def internAll (shardOf : α → Nat) (p : Pool α) : List α → List Handle × Pool α
  | [] => ([], p)
  | a :: as =>
    let (h, q) := p.intern shardOf a
    let (hs, r) := q.internAll shardOf as
    (h :: hs, r)

theorem internAll_eq (shardOf : α → Nat) (p : Pool α) (as : List α) :
    p.internAll shardOf as = (as.map ((as.foldl insert p).handleOf shardOf), as.foldl insert p) := by
  induction as generalizing p with
  | nil => rfl
  | cons a as ih =>
    have hfirst : ((a :: as).foldl insert p).handleOf shardOf a = (p.insert a).handleOf shardOf a :=
      handleOf_extend (prefix_insertAll _ as) (p.mem_insert a)
    rw [List.map_cons, hfirst]
    show ((p.insert a).handleOf shardOf a :: ((p.insert a).internAll shardOf as).1, _) = _
    rw [ih]
    rfl

theorem nodup_insertAll (hp : p.entries.Nodup) (as : List α) : (as.foldl insert p).entries.Nodup := by
  induction as generalizing p with
  | nil => exact hp
  | cons a as ih => exact ih (nodup_insert hp a)

theorem mem_insertAll_iff {as : List α} : b ∈ (as.foldl insert p).entries ↔ b ∈ p.entries ∨ b ∈ as := by
  induction as generalizing p with
  | nil => simp
  | cons a as ih => rw [List.foldl_cons, ih, mem_insert_iff, List.mem_cons, or_assoc]

theorem entries_insertAll_perm (a : α) (as : List α) :
    (as.foldl insert ⟨[a]⟩).entries.Perm (a :: as).dedup := by
  refine (List.perm_ext_iff_of_nodup (nodup_insertAll (List.nodup_singleton a) as) (List.nodup_dedup _)).mpr ?_
  intro b
  rw [mem_insertAll_iff, List.mem_dedup, List.mem_singleton, List.mem_cons]

end Pool

namespace Words

variable {ws : List String} {w : String}

theorem shardOf_empty : shardOf "" = 0 := by
  simp [shardOf, String.toUTF8, ByteArray.toList, ByteArray.toList.loop]

theorem shardOf_lt (w : String) : shardOf w < Handle.shardCount := Nat.mod_lt _ (by decide)

def filled (ws : List String) : Pool String := ws.foldl Pool.insert initial

def BelowCapacity (ws : List String) : Prop :=
  ∀ shard, ("" :: (builtinTypes ++ ws)).dedup.countP (shardOf · = shard) ≤ Handle.maxSlot.toNat + 1

theorem filled_eq (ws : List String) : filled ws = (builtinTypes ++ ws).foldl Pool.insert ⟨[""]⟩ :=
  List.foldl_append.symm

theorem entries_filled_perm (ws : List String) :
    (filled ws).entries.Perm ("" :: (builtinTypes ++ ws)).dedup := by
  rw [filled_eq]
  exact Pool.entries_insertAll_perm _ _

theorem BelowCapacity.roomy (h : BelowCapacity ws) : (filled ws).Roomy shardOf where
  shard w _ := shardOf_lt w
  slot shard := by
    have hcount := (entries_filled_perm ws).countP_eq fun w => decide (shardOf w = shard)
    rw [Pool.shardEntries, ← List.countP_eq_length_filter]
    exact hcount.trans_le (h shard)

theorem mem_filled (hw : w ∈ ws) : w ∈ (filled ws).entries := Pool.mem_insertAll hw initial

theorem empty_isPrefix_filled (ws : List String) : [""] <+: (filled ws).entries := by
  rw [filled_eq]
  exact Pool.prefix_insertAll ⟨[""]⟩ _

theorem handleOf_empty (ws : List String) : (filled ws).handleOf shardOf "" = {} := by
  rw [Pool.handleOf_extend (p := ⟨[""]⟩) (empty_isPrefix_filled ws) (List.mem_singleton_self _)]
  simp [Pool.handleOf, Pool.place, Pool.shardEntries, shardOf_empty, Handle.ofParts]

theorem size_filled (ws : List String) :
    (filled ws).size = 1 + ((builtinTypes ++ ws).filter (· ≠ "")).dedup.length := by
  rw [Pool.size, (entries_filled_perm ws).length_eq]
  have hperm : ("" :: (builtinTypes ++ ws)).dedup.Perm ("" :: ((builtinTypes ++ ws).filter (· ≠ "")).dedup) := by
    refine (List.perm_ext_iff_of_nodup (List.nodup_dedup _) ?_).mpr fun w => ?_
    · exact List.nodup_cons.mpr ⟨by simp, List.nodup_dedup _⟩
    · simp only [List.mem_dedup, List.mem_cons, List.mem_filter, decide_eq_true_eq]
      tauto
  rw [hperm.length_eq, List.length_cons, Nat.add_comm]

-- In a run of calls that stays below the capacity, the answers to two calls agree just in case the words do;
-- an answer leads back to its word at once and after any more calls; the empty word, and no other, has the
-- empty handle; and the pool has counted the words other than the empty one without repetition.
theorem internAll_identifies (ws : List String) (h : BelowCapacity ws) :
    let (hs, p) := initial.internAll shardOf ws
    hs.length = ws.length ∧
    (∀ a ∈ ws.zip hs, ∀ b ∈ ws.zip hs, a.2 = b.2 ↔ a.1 = b.1) ∧
    (∀ before w after, ws = before ++ w :: after →
      let (a, q) := intern (initial.internAll shardOf before).2 w
      lookup q a = w ∧ ∀ more, lookup (q.internAll shardOf more).2 a = w) ∧
    (∀ a ∈ ws.zip hs, a.2 = {} ↔ a.1 = "") ∧ lookup p {} = "" ∧
    p.size = 1 + ((builtinTypes ++ ws).filter (· ≠ "")).dedup.length := by
  rw [Pool.internAll_eq, ← filled]
  have hroomy := h.roomy
  have hempty : "" ∈ (filled ws).entries := (empty_isPrefix_filled ws).subset (List.mem_singleton_self _)
  have hzip : ∀ a ∈ ws.zip (ws.map ((filled ws).handleOf shardOf)),
      a.1 ∈ (filled ws).entries ∧ a.2 = (filled ws).handleOf shardOf a.1 := by
    intro a ha
    rw [← List.map_prod_left_eq_zip] at ha
    obtain ⟨w, hw, rfl⟩ := List.mem_map.mp ha
    exact ⟨mem_filled hw, rfl⟩
  refine ⟨List.length_map _, fun a ha b hb => ?_, fun before w after hws => ?_, fun a ha => ?_, ?_, size_filled ws⟩
  · obtain ⟨ha, hahandle⟩ := hzip a ha
    obtain ⟨hb, hbhandle⟩ := hzip b hb
    rw [hahandle, hbhandle]
    exact hroomy.handleOf_inj ha hb
  · have hlookup :
        ((filled before).insert w).lookup shardOf (((filled before).insert w).handleOf shardOf w) = some w := by
      refine Pool.Roomy.lookup_handleOf (hroomy.mono ?_) (Pool.mem_insert _ w)
      rw [hws, filled, filled, List.foldl_append]
      exact Pool.prefix_insertAll _ after
    rw [Pool.internAll_eq, ← filled]
    refine ⟨?_, fun more => ?_⟩
    · exact congrArg (·.getD "<unknown>") hlookup
    · rw [Pool.internAll_eq]
      exact congrArg (·.getD "<unknown>") (Pool.lookup_extend (Pool.prefix_insertAll _ more) hlookup)
  · obtain ⟨ha, hhandle⟩ := hzip a ha
    rw [hhandle, ← handleOf_empty ws]
    exact hroomy.handleOf_inj ha hempty
  · have hlookup := hroomy.lookup_handleOf hempty
    rw [handleOf_empty] at hlookup
    exact congrArg (·.getD "<unknown>") hlookup

-- One new word, asked for twice, with a built-in name and the empty word between.
theorem internAll_identifies_sample :
    let ws := ["kite", "i32", "", "kite"]
    BelowCapacity ws ∧ (initial.internAll shardOf ws).2.size = 20 := by
  intro ws
  have hbelow : BelowCapacity ws := fun shard =>
    List.countP_le_length.trans ((List.dedup_sublist _).length_le.trans (by decide))
  obtain ⟨-, -, -, -, -, hsize⟩ := internAll_identifies ws hbelow
  exact ⟨hbelow, hsize.trans (by decide)⟩

end Words

end TypeFlow
