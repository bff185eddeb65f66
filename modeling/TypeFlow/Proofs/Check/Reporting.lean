import TypeFlow.Check.Unit
import TypeFlow.Proofs.Diagnostic.Accepting

namespace TypeFlow

def CheckError.saying (r : Registry) (e : CheckError) : ErrorCode × Span × String :=
  (e.code, e.span, e.cause.message (.stored r))

theorem CheckError.isError_diagnostic (r : Registry) (e : CheckError) : (e.diagnostic r).isError := rfl

namespace CheckResult

def queued (c : CheckResult) (limit : Nat) : DiagnosticQueue :=
  DiagnosticQueue.addAll { config := { errorLimit := limit } } (c.errors.map (·.diagnostic c.registry))

def sayings (c : CheckResult) : Nat := (c.errors.map (·.saying c.registry)).dedup.length

theorem isError_of_mem_map {c : CheckResult} {d : Diagnostic}
    (h : d ∈ c.errors.map (·.diagnostic c.registry)) : d.isError := by
  obtain ⟨e, -, rfl⟩ := List.mem_map.1 h
  exact e.isError_diagnostic c.registry

theorem length_dedup_keys (c : CheckResult) :
    ((c.errors.map (·.diagnostic c.registry)).map (·.key)).dedup.length = c.sayings := by
  let key (s : ErrorCode × Span × String) : ErrorCode × Option Span × String := (s.1, some s.2.1, s.2.2)
  have hkey : Function.Injective key := fun s t h => by
    simpa [key, Prod.ext_iff] using h
  have hmap : (c.errors.map (·.diagnostic c.registry)).map (·.key) = (c.errors.map (·.saying c.registry)).map key := by
    simp only [List.map_map]
    rfl
  rw [hmap, List.dedup_map_of_injective hkey, List.length_map, sayings]

end CheckResult

namespace Module

theorem guarantee_eq_queued (m : Module) (config : CheckConfig) :
    (m.check config).guarantee = ((m.check config).queued config.errorLimit).guarantee := rfl

theorem diagnostics_perm_queued (m : Module) (config : CheckConfig) :
    (m.check config).diagnostics.Perm ((m.check config).queued config.errorLimit).accepted :=
  List.mergeSort_perm ..

theorem reports_check (m : Module) (config : CheckConfig) :
    let c := m.check config
    (c.guarantee.isSome ↔ c.errors ≠ []) ∧ (c.diagnostics ≠ [] ↔ c.errors ≠ []) ∧
      (∀ d ∈ c.diagnostics, ∃ e ∈ c.errors, d = e.diagnostic c.registry) ∧
      c.diagnostics.Pairwise (fun d d' =>
        ¬ (d.code = d'.code ∧ d.primarySpan = d'.primarySpan ∧ d.message = d'.message)) ∧
      c.diagnostics.length = if config.errorLimit = 0 then c.sayings else min c.sayings config.errorLimit := by
  intro c
  have hperm : c.diagnostics.Perm (c.queued config.errorLimit).accepted := m.diagnostics_perm_queued config
  have hqueued : (c.queued config.errorLimit).accepted ≠ [] ↔ c.errors ≠ [] :=
    DiagnosticQueue.accepted_addAll_ne_nil.trans (not_congr List.map_eq_nil_iff)
  refine ⟨?_, ?_, fun d hd => ?_, ?_, ?_⟩
  · rw [m.guarantee_eq_queued config, ← hqueued]
    exact DiagnosticQueue.guarantee_addAll fun d hd => CheckResult.isError_of_mem_map hd
  · rw [← hqueued, ← List.length_pos_iff, ← List.length_pos_iff, hperm.length_eq]
  · obtain ⟨e, he, rfl⟩ := List.mem_map.1 (DiagnosticQueue.mem_of_mem_accepted (hperm.mem_iff.1 hd))
    exact ⟨e, he, rfl⟩
  · have hkeys : (c.diagnostics.map (·.key)).Nodup :=
      (hperm.map _).nodup_iff.2 (((DiagnosticQueue.tight_empty _).addAll _).distinct (by simp))
    refine (List.pairwise_map.1 hkeys).imp fun hne hsame => hne ?_
    simp only [Diagnostic.key, hsame]
  · rw [hperm.length_eq, CheckResult.queued,
      DiagnosticQueue.length_addAll rfl fun d hd => CheckResult.isError_of_mem_map hd, c.length_dedup_keys]

end Module

end TypeFlow
