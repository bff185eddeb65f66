import TypeFlow.Proofs.Check.Independence
import TypeFlow.Proofs.Infer.Lockstep

namespace TypeFlow

namespace BodyJob

theorem lockstep_check (c : BodyContext) (j : BodyJob) : Infer.Lockstep c j.check :=
  j.check_of_sequential (Infer.sequential_lockstep c) (j.body.lockstep c)

theorem head?_errors_run (r : Registry) (j : BodyJob) (p q : ErrorPolicy) (n : Nat) :
    (j.run r p n).errors.head? = (j.run r q n).errors.head? :=
  ((lockstep_check (j.context r p) j).agree p q { nextVar := n } ⟨rfl, rfl⟩).head_eq

end BodyJob

namespace Module

def firstErrors (m : Module) (config : CheckConfig) : List (BodyJob × Option CheckError) :=
  m.jobs.zip ((m.states config).map (·.errors.head?))

theorem firstErrors_eq (m : Module) (config : CheckConfig) :
    m.firstErrors config = (m.outcomes config).map fun x => (x.1, x.2.1.head?) := by
  have hstates : (m.states config).map (·.errors.head?) =
      ((m.states config).map (·.outcome)).map fun x => x.1.head? := by simp [BodyState.outcome]
  rw [firstErrors, hstates, List.zip_map_right]
  rfl

theorem firstErrors_policy (m : Module) (config config' : CheckConfig) :
    m.firstErrors config = m.firstErrors config' := by
  rw [firstErrors_eq, firstErrors_eq, outcomes_eq, outcomes_eq, List.map_map, List.map_map]
  refine List.map_congr_left fun j _ => ?_
  exact congrArg (Prod.mk j) (BodyJob.head?_errors_run _ j config.policy config'.policy 0)

theorem errors_eq_nil_iff (m : Module) (config : CheckConfig) :
    (∀ s ∈ m.states config, s.errors = []) ↔ ∀ x ∈ m.firstErrors config, x.2 = none := by
  constructor
  · intro h x hx
    obtain ⟨s, hs, hhead⟩ := List.mem_map.mp (List.of_mem_zip hx).2
    rw [← hhead, h s hs]
    rfl
  · intro h s hs
    obtain ⟨j, hj⟩ := BodyJob.exists_job hs
    have hmem : (j, s.errors.head?) ∈ m.firstErrors config := by
      rw [firstErrors, List.zip_map_right]
      exact List.mem_map.mpr ⟨(j, s), hj, rfl⟩
    exact List.head?_eq_none_iff.mp (h _ hmem)

theorem policies_agree (m : Module) (config config' : CheckConfig) :
    m.number.1.firstErrors config = m.number.1.firstErrors config' ∧
      ((m.check config).errors = [] ↔ (m.check config').errors = []) := by
  have hfirst := firstErrors_policy m.number.1 config config'
  have hstates := errors_eq_nil_iff m.number.1 config
  rw [hfirst, ← errors_eq_nil_iff] at hstates
  have herrors (config : CheckConfig) : (m.check config).errors =
      m.number.1.registered.errors ++
        (m.number.1.registered.consts ++ m.number.1.states config).flatMap (·.errors) := rfl
  refine ⟨hfirst, ?_⟩
  rw [herrors, herrors]
  simp only [List.append_eq_nil_iff, List.flatMap_append, List.flatMap_eq_nil_iff]
  rw [hstates]

end Module

end TypeFlow
