import TypeFlow.Proofs.Check.Units
import TypeFlow.Proofs.Infer.Counter
import TypeFlow.Proofs.Intern.Identity
import TypeFlow.Proofs.Intern.Substitution

namespace TypeFlow

def BodyState.outcome (s : BodyState) : List CheckError × List (Nat × Ty) × List (Nat × Instantiation) :=
  (s.errors, s.types, s.insts)

def BodyState.settled (s : BodyState) : List CheckError × List (Nat × Ty) × List (Nat × Instantiation) :=
  (s.errors.map (·.settled), s.types, s.insts)

theorem Registry.Sound.ground {c : BodyContext} {p : Prop} {o : Outline} (h : c.registry.Sound p o) :
    c.Ground where
  callee hf hp :=
    Outline.varFree_of_wellFormed ((h.function _ (List.mem_of_find?_eq_some hf)).1.param _ hp).wellFormed
  field hk he := by
    obtain ⟨info, hinfo, hk⟩ := decl?_of_kind? hk
    exact Outline.varFree_of_wellFormed ((sound_of_decl? h hinfo).field hk _ he).wellFormed

namespace BodyJob

open Infer (Blind)

variable {c : BodyContext} {r : Registry} {policy : ErrorPolicy} {p : Prop} {o : Outline} {j : BodyJob}
  {js : List BodyJob} {ids : Ty → Nat} {view : CheckError → CheckError}

theorem blind_check (hc : c.Ground) (hjoins : c.JoinsAlike ids view) (j : BodyJob) : Blind c ids view j.check :=
  j.check_of_sequential (Infer.sequential_blind hjoins) (j.body.blind hc hjoins)

theorem resembles_run (h : r.Sound p o) (hjoins : (j.context r policy).JoinsAlike ids view) (n n' : Nat) :
    (j.run r policy n).Resembles view (j.run r policy n' ids) := by
  have hground : (j.context r policy).Ground := Registry.Sound.ground h
  exact (blind_check hground hjoins j { nextVar := n } { nextVar := n' } ⟨rfl, n', [], rfl⟩).2

theorem outcome_run (h : r.Sound p o) (policy : ErrorPolicy) (n : Nat) :
    (j.run r policy n).outcome = (j.run r policy 0).outcome := by
  obtain ⟨herrors, k, es, heq⟩ : (j.run r policy n).Resembles id (j.run r policy 0) :=
    resembles_run h (j.context r policy).joinsAlike_self n 0
  have heq : j.run r policy 0 = { j.run r policy n with nextVar := k, errors := es } := heq
  have herrors : (j.run r policy n).errors.map id = (j.run r policy 0).errors.map id := herrors
  rw [List.map_id, List.map_id, heq] at herrors
  rw [heq, BodyState.outcome, herrors]
  rfl

theorem settled_run (h : r.Sound p o) (policy : ErrorPolicy) (n : Nat) (ids : Ty → Nat) :
    (j.run r policy n ids).settled = (j.run r policy 0).settled := by
  obtain ⟨herrors, k, es, heq⟩ := resembles_run h ((j.context r policy).joinsAlike ids) 0 n
  rw [BodyState.settled, BodyState.settled, herrors, heq]

theorem zip_outcome_runAll (h : r.Sound p o) (policy : ErrorPolicy) (n : Nat) :
    js.zip ((runAll r policy n js).map (·.outcome)) =
      js.map fun j => (j, (j.run r policy 0).outcome) := by
  induction js generalizing n with
  | nil => rfl
  | cons j js ih => rw [runAll, List.map_cons, List.zip_cons_cons, ih, outcome_run h, List.map_cons]

-- Bodies checked one after another against one pool of types. To check a body is to ask the pool for types and
-- unknowns, whichever these are; types have the ids then that they have in the pool when the body is done.
inductive InTurn (hash : TypeNode → Nat) (word : Handle → String) (r : Registry) (policy : ErrorPolicy) :
    TypePool → List BodyJob → List BodyState → TypePool → Prop
  | nil (p : TypePool) : InTurn hash word r policy p [] [] p
  | cons {p q q' : TypePool} {rs : List TypePool.Request} {as : List Handle} {j : BodyJob} {js : List BodyJob}
    {ss : List BodyState} (hrun : p.supplyAll hash rs = .ok (as, q))
    (hvars : q.nextVar.toNat = (j.run r policy p.nextVar.toNat (q.idOf hash word)).nextVar)
    (hrest : InTurn hash word r policy q js ss q') :
    InTurn hash word r policy p (j :: js) (j.run r policy p.nextVar.toNat (q.idOf hash word) :: ss) q'

theorem InTurn.zip_settled (h : r.Sound p o) {hash : TypeNode → Nat} {word : Handle → String} {q q' : TypePool}
    {ss : List BodyState} (hturn : InTurn hash word r policy q js ss q') :
    js.zip (ss.map (·.settled)) = js.map fun j => (j, (j.run r policy 0).settled) := by
  induction hturn with
  | nil => rfl
  | cons _ _ _ ih => rw [List.map_cons, List.zip_cons_cons, ih, settled_run h, List.map_cons]

end BodyJob

namespace Module

variable {m : Module} {config : CheckConfig}

def outcomes (m : Module) (config : CheckConfig) :
    List (BodyJob × List CheckError × List (Nat × Ty) × List (Nat × Instantiation)) :=
  m.jobs.zip ((m.states config).map (·.outcome))

theorem zip_outcome (m : Module) (js : List BodyJob) (policy : ErrorPolicy) (n : Nat) :
    js.zip ((BodyJob.runAll m.registered.registry policy n js).map (·.outcome)) =
      js.map fun j => (j, (j.run m.registered.registry policy 0).outcome) := by
  obtain ⟨o, hreg⟩ := m.sound_registered
  exact BodyJob.zip_outcome_runAll hreg.registry policy n

theorem outcomes_eq (m : Module) (config : CheckConfig) :
    m.outcomes config = m.jobs.map fun j => (j, (j.run m.registered.registry config.policy 0).outcome) :=
  zip_outcome m _ config.policy _

def alone (m : Module) (config : CheckConfig) (j : BodyJob) :
    BodyJob × List CheckError × List (Nat × Ty) × List (Nat × Instantiation) :=
  (j, (j.run m.registered.registry config.policy 0).settled)

def Produces (m : Module) (config : CheckConfig) (js : List BodyJob)
    (os : List (BodyJob × List CheckError × List (Nat × Ty) × List (Nat × Instantiation))) : Prop :=
  ∃ hash word rs as p ss q, TypePool.supplyAll hash {} rs = .ok (as, p) ∧
    BodyJob.InTurn hash word m.registered.registry config.policy p js ss q ∧ os = js.zip (ss.map (·.settled))

theorem Produces.eq {js : List BodyJob} {os : List (BodyJob × List CheckError × List (Nat × Ty) × List (Nat × Instantiation))}
    (h : m.Produces config js os) : os = js.map (m.alone config) := by
  obtain ⟨hash, word, rs, as, p, ss, q, -, hturn, rfl⟩ := h
  obtain ⟨o, hreg⟩ := m.sound_registered
  exact hturn.zip_settled hreg.registry

def choices : Module where
  interfaces := [⟨"I", [⟨"T", .type [] none, {}⟩], false, {}⟩, ⟨"J", [⟨"T", .type [] none, {}⟩], false, {}⟩]
  structs := [
    ⟨"A", [⟨"T", .type [] none, {}⟩], [], [.named "I" [.named "T" []], .named "J" [.named "T" []]], {}⟩,
    ⟨"B", [⟨"T", .type [] none, {}⟩], [], [.named "I" [.named "T" []], .named "J" [.named "T" []]], {}⟩]
  functions := [
    ⟨"pick", [], [⟨"c", .named "bool" [], false, {}⟩], false, none,
      .block ⟨4, {}⟩ [.bind {} "x" false none (.cond ⟨3, {}⟩ (.ident ⟨0, {}⟩ "c")
        (.construct ⟨1, {}⟩ "A" [.type (.named "i32" [])] []) (.construct ⟨2, {}⟩ "B" [.type (.named "i32" [])] []))]
        .missing, {}⟩,
    ⟨"one", [], [], false, some (.named "i32" []), .int ⟨5, {}⟩ 1, {}⟩]

theorem length_jobs_choices : choices.jobs.length = 2 := by decide +kernel

def one : BodyJob := choices.jobs.get ⟨1, by rw [length_jobs_choices]; decide⟩

end Module

end TypeFlow
