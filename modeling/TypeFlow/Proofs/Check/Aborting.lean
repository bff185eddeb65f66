import TypeFlow.Proofs.Check.Reached

namespace TypeFlow

namespace BodyJob

theorem stops_run (j : BodyJob) (r : Registry) (policy : ErrorPolicy) (n : Nat) (h : policy = .abort) :
    ∃ l, j.body.Stops l ∧ ((j.run r policy n).errors.tail.map (·.span)).Sublist l := by
  have hcourse := course_body (j.context r policy) j
  rw [run_eq]
  rcases hcourse.live (j.start n) rfl with hadv | ⟨hhalts, -⟩
  · refine ⟨_, .here j.body, ?_⟩
    rw [hadv.errors h]
    exact List.nil_sublist _
  · obtain ⟨first, late, l, herrors, hl, hsub⟩ := hhalts.errors
    have hlate : (late.map (·.span)).Sublist l := by simpa using hsub
    rw [herrors]
    rcases hl with rfl | hl
    · exact ⟨_, .here j.body, hlate.trans (List.nil_sublist _)⟩
    · exact ⟨l, hl, hlate⟩

theorem length_errors_run_le_one (j : BodyJob) (r : Registry) (n : Nat)
    (h : ∀ l, j.body.Stops l → l = []) : (j.run r .abort n).errors.length ≤ 1 := by
  obtain ⟨l, hl, hsub⟩ := j.stops_run r .abort n rfl
  rw [h l hl] at hsub
  have hlength := hsub.length_le
  rw [List.length_map, List.length_tail, List.length_nil] at hlength
  omega

end BodyJob

namespace Module

theorem stops_of_abort (m : Module) {config : CheckConfig} (h : config.policy = .abort) {j : BodyJob}
    {s : BodyState} (hj : (j, s) ∈ m.number.1.jobs.zip (m.number.1.states config)) :
    ∃ l, j.body.Stops l ∧ (s.errors.tail.map (·.span)).Sublist l := by
  obtain ⟨n, rfl⟩ := BodyJob.eq_run_of_mem hj
  exact j.stops_run _ _ n h

-- The argument stops the check of the call, and then the callee is reported.
theorem stops_callsUnknown :
    ∃ p ∈ callsUnknown.number.1.jobs.zip (callsUnknown.number.1.states ⟨.abort, 0⟩), p.2.errors.length = 2 ∧
      ∃ l, p.1.body.Stops l ∧ (p.2.errors.tail.map (·.span)).Sublist l := by
  have hcount : (callsUnknown.number.1.jobs.zip (callsUnknown.number.1.states ⟨.abort, 0⟩)).map
      (fun p => p.2.errors.length) = [2] := by decide +kernel
  have hmem : 2 ∈ (callsUnknown.number.1.jobs.zip (callsUnknown.number.1.states ⟨.abort, 0⟩)).map
      (fun p => p.2.errors.length) := by simp [hcount]
  obtain ⟨p, hp, hlength⟩ := List.mem_map.mp hmem
  exact ⟨p, hp, hlength, stops_of_abort callsUnknown rfl hp⟩

end Module

end TypeFlow
