import TypeFlow.Proofs.Diagnostic.Selection

namespace TypeFlow

namespace DiagnosticQueue

variable {q : DiagnosticQueue} {c : QueueConfig} {d e : Diagnostic} {ds : List Diagnostic}

inductive Call where
  | add (d : Diagnostic)
  | emit (d : Diagnostic)
  | flush

def perform (q : DiagnosticQueue) : Call → DiagnosticQueue
  | .add d => q.add d
  | .emit d => (q.emit d).2
  | .flush => q.flush.2

def performAll (q : DiagnosticQueue) (calls : List Call) : DiagnosticQueue := calls.foldl perform q

def told (calls : List Call) : List Diagnostic :=
  calls.foldl (fun
    | ds, .add d | ds, .emit d => ds ++ [d]
    | _, .flush => []) []

theorem perform_addAll (c : QueueConfig) (ds : List Diagnostic) (call : Call) :
    (addAll { config := c } ds).perform call = addAll { config := c } (match call with
      | .add d | .emit d => ds ++ [d]
      | .flush => []) := by
  cases call with
  | add d => exact (addAll_append _ ds [d]).symm
  | emit d => exact (addAll_append _ ds [d]).symm
  | flush => exact congrArg (fun c => ({ config := c } : DiagnosticQueue)) (config_addAll _ ds)

theorem performAll_fresh (c : QueueConfig) (calls : List Call) :
    performAll { config := c } calls = addAll { config := c } (told calls) := by
  induction calls using List.reverseRecOn with
  | nil => rfl
  | append_singleton calls call ih =>
    have hstep : performAll { config := c } (calls ++ [call]) =
        (performAll { config := c } calls).perform call := List.foldl_append
    rw [hstep, ih, perform_addAll, told, told, List.foldl_append]
    cases call <;> rfl

theorem guarantee_isSome_iff : q.guarantee.isSome ↔ ∃ e ∈ q.accepted, e.isError := by
  have hpos : 0 < q.errorCount ↔ ∃ e ∈ q.accepted, e.isError := List.countP_pos_iff
  rw [← hpos, guarantee]
  split <;> simp_all

theorem guarantee_eq_none_iff : q.guarantee = none ↔ ∀ e ∈ q.accepted, ¬ e.isError := by
  rw [← Option.not_isSome_iff_eq_none, guarantee_isSome_iff]
  push Not
  rfl

theorem exists_accepts (h : e ∈ (q.addAll ds).accepted) :
    e ∈ q.accepted ∨ ∃ before after, ds = before ++ e :: after ∧ (q.addAll before).accepts e := by
  induction ds generalizing q with
  | nil => exact .inl h
  | cons d ds ih =>
    rcases ih h with hq | ⟨before, after, rfl, haccepts⟩
    · by_cases hd : q.accepts d
      · rw [add_of_accepts hd] at hq
        rcases List.mem_append.mp hq with hq | hlast
        · exact .inl hq
        · obtain rfl := List.mem_singleton.mp hlast
          exact .inr ⟨[], ds, rfl, hd⟩
      · exact .inl (add_of_not_accepts hd ▸ hq)
    · exact .inr ⟨d :: before, after, rfl, haccepts⟩

theorem accepted_subset_addAll (q : DiagnosticQueue) (ds : List Diagnostic) :
    q.accepted ⊆ (q.addAll ds).accepted := by
  obtain ⟨taken, -, hgrows⟩ := exists_accepted_addAll q ds
  exact hgrows ▸ List.subset_append_left _ _

theorem not_accepts_iff :
    ¬ q.accepts d ↔ (d.isError ∧ q.limitReached) ∨ (q.config.deduplicate ∧ d.key ∈ q.keys) := by
  rw [accepts_iff, not_and_or]
  simp only [Classical.not_imp, not_not]

theorem key_mem_of_not_isError (hd : ¬ d.isError) (hmem : d ∈ ds) : d.key ∈ (q.addAll ds).keys := by
  obtain ⟨before, after, rfl⟩ := List.append_of_mem hmem
  have hkey : d.key ∈ ((q.addAll before).add d).keys := by
    by_cases haccepts : (q.addAll before).accepts d
    · simp [add_of_accepts haccepts, keys]
    · rw [add_of_not_accepts haccepts]
      rcases not_accepts_iff.mp haccepts with hfull | hrepeats
      · exact absurd hfull.1 hd
      · exact hrepeats.2
  rw [addAll_append, addAll_cons]
  exact List.map_subset _ (accepted_subset_addAll _ after) hkey

def Shadowed (ds : List Diagnostic) : Prop :=
  ∀ before e after, ds = before ++ e :: after → e.isError → ∃ w ∈ before, ¬ w.isError ∧ w.Agrees e

theorem Shadowed.no_errors (h : Shadowed ds) (hc : c.deduplicate) :
    ∀ e ∈ (addAll { config := c } ds).accepted, ¬ e.isError := by
  intro e he herror
  obtain hnil | ⟨before, after, hds, haccepts⟩ := exists_accepts he
  · cases hnil
  · obtain ⟨w, hw, hwarns, hagrees⟩ := h before e after hds herror
    have hc : (addAll { config := c } before).config.deduplicate := by rwa [config_addAll]
    have hkey : e.key ∈ (addAll { config := c } before).keys := by
      rw [← Diagnostic.key_eq_iff.mpr hagrees]
      exact key_mem_of_not_isError hwarns hw
    exact (accepts_iff.mp haccepts).2 hc hkey

theorem repeats_of_no_errors (hnone : ∀ e ∈ (addAll { config := c } ds).accepted, ¬ e.isError)
    {before after : List Diagnostic} (hds : ds = before ++ e :: after) (herror : e.isError) :
    c.deduplicate ∧ ∃ w ∈ before, ¬ w.isError ∧ w.Agrees e := by
  rw [hds, addAll_append, addAll_cons] at hnone
  have hlater := accepted_subset_addAll ((addAll { config := c } before).add e) after
  have hrejected : ¬ (addAll { config := c } before).accepts e := fun haccepts =>
    hnone e (hlater (by simp [add_of_accepts haccepts])) herror
  rw [add_of_not_accepts hrejected] at hnone hlater
  have hcount : (addAll { config := c } before).errorCount = 0 :=
    List.countP_eq_zero.mpr fun x hx => hnone x (hlater hx)
  rcases not_accepts_iff.mp hrejected with ⟨-, hfull⟩ | ⟨hc, hkey⟩
  · rw [limitReached_iff, hcount] at hfull
    exact absurd hfull.1 hfull.2.not_gt
  · obtain ⟨w, hw, hsame⟩ := List.mem_map.mp hkey
    rw [config_addAll] at hc
    exact ⟨hc, w, mem_of_mem_accepted hw, hnone w (hlater hw), Diagnostic.key_eq_iff.mp hsame⟩

-- The queue has errors exactly when it holds one. Right after an error was emitted it has none just in case
-- duplicates are dropped and each error told since the last flush comes after a warning that says the same.
theorem guarantee_emit (c : QueueConfig) (calls : List Call) (d : Diagnostic) (hd : d.isError) :
    let q := ((performAll { config := c } calls).emit d).2
    (q.guarantee.isSome ↔ ∃ e ∈ q.accepted, e.isError) ∧
      (q.guarantee = none ↔ c.deduplicate ∧ Shadowed (told calls ++ [d])) := by
  intro q
  refine ⟨guarantee_isSome_iff, ?_⟩
  have hq : q = addAll { config := c } (told calls ++ [d]) := by
    rw [addAll_append, ← performAll_fresh]
    rfl
  rw [guarantee_eq_none_iff, hq]
  constructor
  · intro hnone
    refine ⟨(repeats_of_no_errors hnone rfl hd).1, fun before e after hds herror => ?_⟩
    exact (repeats_of_no_errors hnone hds herror).2
  · rintro ⟨hc, hshadowed⟩
    exact hshadowed.no_errors hc

-- A warning, then an error that says the same.
theorem guarantee_emit_behind_warning :
    let warning : Diagnostic := { code := .typeMismatch, severity := .warning, message := "m" }
    let error : Diagnostic := { warning with severity := .error }
    error.isError ∧ ((performAll { config := {} } [.add warning]).emit error).2.guarantee = none := by
  intro warning error
  refine ⟨rfl, (guarantee_emit {} [.add warning] error rfl).2.mpr ⟨rfl, fun before e after hds herror => ?_⟩⟩
  cases before with
  | nil =>
    obtain ⟨rfl, -⟩ := List.cons.inj hds
    cases herror
  | cons w before =>
    obtain ⟨rfl, hrest⟩ := List.cons.inj hds
    have hrest : [error] = before ++ e :: after := hrest
    have he : e ∈ [error] := hrest ▸ List.mem_append_right before List.mem_cons_self
    obtain rfl := List.mem_singleton.mp he
    exact ⟨warning, List.mem_cons_self, Bool.false_ne_true, rfl, rfl, rfl⟩

end DiagnosticQueue

end TypeFlow
