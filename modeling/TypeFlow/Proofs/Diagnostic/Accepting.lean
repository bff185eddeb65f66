import TypeFlow.Diagnostic.Queue
import Mathlib.Data.List.Dedup
import Mathlib.Data.List.Perm.Subperm

namespace TypeFlow

namespace DiagnosticQueue

def keys (q : DiagnosticQueue) : List (ErrorCode × Option Span × String) := q.accepted.map (·.key)

structure Tight (q : DiagnosticQueue) : Prop where
  distinct : q.config.deduplicate → q.keys.Nodup
  limited : 0 < q.config.errorLimit → q.errorCount ≤ q.config.errorLimit

variable {q : DiagnosticQueue} {d : Diagnostic} {ds : List Diagnostic}

theorem tight_empty (c : QueueConfig) : Tight { config := c } :=
  ⟨fun _ => List.nodup_nil, fun _ => Nat.zero_le _⟩

@[simp]
theorem addAll_nil (q : DiagnosticQueue) : q.addAll [] = q := rfl

@[simp]
theorem addAll_cons (q : DiagnosticQueue) (d : Diagnostic) (ds : List Diagnostic) :
    q.addAll (d :: ds) = (q.add d).addAll ds := rfl

theorem accepts_iff : q.accepts d ↔
    (d.isError → ¬ q.limitReached) ∧ (q.config.deduplicate → d.key ∉ q.keys) := by
  simp only [accepts, repeats, keys, Bool.and_eq_true, Bool.not_eq_true', Bool.and_eq_false_imp, List.any_eq_false,
    beq_iff_eq, List.mem_map, not_exists, not_and, Bool.not_eq_true]

theorem limitReached_iff : q.limitReached ↔ 0 < q.config.errorLimit ∧ q.config.errorLimit ≤ q.errorCount := by
  simp [limitReached]

theorem add_of_accepts (h : q.accepts d) : q.add d = { q with accepted := q.accepted ++ [d] } := if_pos h

theorem add_of_not_accepts (h : ¬ q.accepts d) : q.add d = q := if_neg h

@[simp]
theorem config_add (q : DiagnosticQueue) (d : Diagnostic) : (q.add d).config = q.config := by
  unfold add
  split <;> rfl

@[simp]
theorem config_addAll (q : DiagnosticQueue) (ds : List Diagnostic) : (q.addAll ds).config = q.config := by
  induction ds generalizing q with
  | nil => rfl
  | cons d ds ih => rw [addAll_cons, ih, config_add]

theorem Tight.add (h : q.Tight) (d : Diagnostic) : (q.add d).Tight := by
  by_cases hd : q.accepts d
  · obtain ⟨hfull, hnew⟩ := accepts_iff.1 hd
    rw [add_of_accepts hd]
    constructor
    · intro hdedup
      have hkeys : (q.keys ++ [d.key]).Nodup :=
        List.nodup_append.2 ⟨h.distinct hdedup, List.nodup_singleton _, fun k hk _ hk' => by
          rw [List.mem_singleton.1 hk']
          rintro rfl
          exact hnew hdedup hk⟩
      simpa [keys] using hkeys
    · intro hlimit
      have hcount := h.limited hlimit
      simp only [limitReached_iff, not_and, Nat.not_le] at hfull
      simp only [errorCount, List.countP_append, List.countP_singleton] at hcount hfull ⊢
      split
      · exact hfull ‹_› hlimit
      · exact hcount
  · rwa [add_of_not_accepts hd]

theorem Tight.addAll (h : q.Tight) (ds : List Diagnostic) : (q.addAll ds).Tight := by
  induction ds generalizing q with
  | nil => exact h
  | cons d ds ih => exact ih (h.add d)

theorem exists_accepted_addAll (q : DiagnosticQueue) (ds : List Diagnostic) :
    ∃ taken, taken.Sublist ds ∧ (q.addAll ds).accepted = q.accepted ++ taken := by
  induction ds generalizing q with
  | nil => exact ⟨[], .slnil, (List.append_nil _).symm⟩
  | cons d ds ih =>
    obtain ⟨taken, hsub, heq⟩ := ih (q.add d)
    rw [addAll_cons, heq]
    by_cases hd : q.accepts d
    · exact ⟨d :: taken, hsub.cons_cons d, by simp [add_of_accepts hd]⟩
    · exact ⟨taken, hsub.cons d, by rw [add_of_not_accepts hd]⟩

theorem limitReached_addAll (h : q.limitReached) (ds : List Diagnostic) : (q.addAll ds).limitReached := by
  obtain ⟨taken, -, heq⟩ := exists_accepted_addAll q ds
  rw [limitReached_iff] at h ⊢
  simp only [config_addAll, errorCount, heq, List.countP_append] at h ⊢
  omega

theorem key_mem_add (q : DiagnosticQueue) (d : Diagnostic) : q.limitReached ∨ d.key ∈ (q.add d).keys := by
  by_cases hd : q.accepts d
  · exact .inr (by simp [add_of_accepts hd, keys])
  · rw [add_of_not_accepts hd]
    rw [accepts_iff] at hd
    by_contra hno
    exact hd ⟨fun _ hfull => hno (.inl hfull), fun _ hkey => hno (.inr hkey)⟩

theorem key_mem_addAll (h : d ∈ ds) (q : DiagnosticQueue) :
    (q.addAll ds).limitReached ∨ d.key ∈ (q.addAll ds).keys := by
  induction ds generalizing q with
  | nil => cases h
  | cons e ds ih =>
    rcases List.mem_cons.1 h with rfl | h
    · refine (key_mem_add q d).imp (fun hfull => ?_) fun hkey => ?_
      · exact limitReached_addAll (q := q) hfull (d :: ds)
      · obtain ⟨taken, -, heq⟩ := exists_accepted_addAll (q.add d) ds
        rw [addAll_cons, keys, heq, List.map_append]
        exact List.mem_append_left _ hkey
    · exact ih h (q.add e)

section Errors

variable {c : QueueConfig}

theorem mem_of_mem_accepted (h : d ∈ (addAll { config := c } ds).accepted) : d ∈ ds := by
  obtain ⟨taken, hsub, heq⟩ := exists_accepted_addAll { config := c } ds
  rw [heq] at h
  exact hsub.subset (by simpa using h)

theorem errorCount_addAll (hds : ∀ d ∈ ds, d.isError) :
    (addAll { config := c } ds).errorCount = (addAll { config := c } ds).accepted.length :=
  List.countP_eq_length.2 fun d hd => hds d (mem_of_mem_accepted hd)

theorem guarantee_addAll (hds : ∀ d ∈ ds, d.isError) :
    (addAll { config := c } ds).guarantee.isSome ↔ (addAll { config := c } ds).accepted ≠ [] := by
  rw [guarantee, errorCount_addAll hds, ← List.length_pos_iff]
  split <;> simp_all

theorem accepted_addAll_ne_nil : (addAll { config := c } ds).accepted ≠ [] ↔ ds ≠ [] := by
  constructor
  · rintro h rfl
    exact h rfl
  · intro h hnil
    obtain ⟨d, hd⟩ := List.exists_mem_of_ne_nil ds h
    rcases key_mem_addAll hd { config := c } with hfull | hkey
    · rw [limitReached_iff, errorCount, hnil] at hfull
      exact absurd hfull.1 (by simpa using hfull.2)
    · rw [keys, hnil] at hkey
      cases hkey

theorem length_addAll (hc : c.deduplicate) (hds : ∀ d ∈ ds, d.isError) :
    let distinct := (ds.map (·.key)).dedup.length
    (addAll { config := c } ds).accepted.length =
      if c.errorLimit = 0 then distinct else min distinct c.errorLimit := by
  intro distinct
  have htight := (tight_empty c).addAll ds
  have hle : (addAll { config := c } ds).accepted.length ≤ distinct := by
    have hsub : (addAll { config := c } ds).keys ⊆ (ds.map (·.key)).dedup := fun k hk => by
      obtain ⟨d, hd, rfl⟩ := List.mem_map.1 hk
      exact List.mem_dedup.2 (List.mem_map_of_mem (mem_of_mem_accepted hd))
    simpa [keys] using (List.subperm_of_subset (htight.distinct (by simpa using hc)) hsub).length_le
  have hlimit : 0 < c.errorLimit → (addAll { config := c } ds).accepted.length ≤ c.errorLimit := by
    simpa only [errorCount_addAll hds, config_addAll] using htight.limited
  by_cases hfull : (addAll { config := c } ds).limitReached
  · simp only [limitReached_iff, errorCount_addAll hds, config_addAll] at hfull
    split <;> omega
  · have hge : distinct ≤ (addAll { config := c } ds).accepted.length := by
      have hsub : (ds.map (·.key)).dedup ⊆ (addAll { config := c } ds).keys := fun k hk => by
        obtain ⟨d, hd, rfl⟩ := List.mem_map.1 (List.mem_dedup.1 hk)
        exact (key_mem_addAll hd _).resolve_left hfull
      simpa [keys] using (List.subperm_of_subset (List.nodup_dedup _) hsub).length_le
    split <;> omega

end Errors

end DiagnosticQueue

end TypeFlow
