import TypeFlow.Proofs.Check.Silent
import TypeFlow.Proofs.Check.WellFormed

namespace TypeFlow

open BodyState (Writes)

def CheckResult.findings (res : CheckResult) : Findings :=
  ⟨fun i => (res.types[i]?).join, fun i => res.insts.lookup i, res.errors⟩

theorem lookup_flatMap_eq_none {α β : Type} {f : α → List (Nat × β)} {as : List α} {i : Nat}
    (h : ∀ a ∈ as, (f a).lookup i = none) : (as.flatMap f).lookup i = none := by
  induction as with
  | nil => rfl
  | cons a as ih =>
    obtain ⟨ha, has⟩ := List.forall_mem_cons.mp h
    rw [List.flatMap_cons, List.lookup_append, ha]
    exact ih has

theorem lookup_flatMap_zip {α σ β : Type} {R : α → σ → Prop} {ids : α → List Nat} {f : σ → List (Nat × β)}
    {as : List α} {ss : List σ} {a : α} {s : σ} {i : Nat} (h : List.Forall₂ R as ss)
    (hf : ∀ a s i, R a s → i ∉ ids a → (f s).lookup i = none) (hnodup : (as.flatMap ids).Nodup)
    (hmem : (a, s) ∈ as.zip ss) (hi : i ∈ ids a) : (ss.flatMap f).lookup i = (f s).lookup i := by
  induction h with
  | nil => cases hmem
  | @cons b t as ss hbt hrest ih =>
    obtain ⟨-, hnodup, happart⟩ := List.nodup_append.mp hnodup
    rw [List.flatMap_cons, List.lookup_append]
    rcases List.mem_cons.mp hmem with heq | hmem
    · cases heq
      have hnone : (ss.flatMap f).lookup i = none := by
        refine lookup_flatMap_eq_none fun u hu => ?_
        obtain ⟨d, hd, hdu⟩ := exists_of_forall₂_right hrest hu
        have hmem : d ∈ as := (List.of_mem_zip hd).1
        exact hf d u i hdu fun hid => happart i hi i (List.mem_flatMap.mpr ⟨d, hmem, hid⟩) rfl
      rw [hnone, Option.or_none]
    · have hlater : i ∈ as.flatMap ids := List.mem_flatMap.mpr ⟨a, (List.of_mem_zip hmem).1, hi⟩
      rw [hf b t i hbt fun hib => happart i hib i hlater rfl]
      exact ih hnodup hmem

theorem lookup_filterMap_of_mem {β : Type} (f : Nat → Option β) {ks : List Nat} {i : Nat} (h : i ∈ ks) :
    (ks.filterMap fun k => (f k).map fun b => (k, b)).lookup i = f i := by
  have hlookup : (ks.filterMap fun k => (f k).map fun b => (k, b)).lookup i = if i ∈ ks then f i else none := by
    clear h
    induction ks with
    | nil => rfl
    | cons k ks ih =>
      rw [List.filterMap_cons]
      by_cases hik : i = k
      · subst hik
        cases hf : f i <;> simp [hf, ih]
      · cases hf : f k <;> simp [List.lookup_cons, beq_false_of_ne hik, ih, hik]
  rw [hlookup, if_pos h]

namespace BodyJob

variable {r : Registry} {policy : ErrorPolicy} {n i : Nat} {j : BodyJob} {js : List BodyJob} {s : BodyState}

theorem writes_run (r : Registry) (policy : ErrorPolicy) (n : Nat) (j : BodyJob) :
    Writes (j.context r policy) j.body.ids (j.start n) (j.run r policy n) := by
  rw [run_eq]
  split
  · exact (j.body.confined _ none false _).1
  · have hbody := (j.body.confined (j.context r policy) (some j.ret) true (j.start n)).1
    exact hbody.trans ((Infer.writes_requireAssignable _ _ _ _ _).mono (List.nil_subset _))

theorem running_run (h : policy = .recover ∨ (j.run r policy n).errors = []) :
    (j.run r policy n).aborted = false := by
  rcases (writes_run r policy n j).stops with hstops | ⟨habort, herrors⟩
  · exact hstops
  · have hpolicy : policy = .abort := habort
    rcases h with h | h
    · exact nomatch h.symm.trans hpolicy
    · rw [h] at herrors
      exact absurd herrors (Nat.not_lt_zero _)

theorem exists_run (r : Registry) (policy : ErrorPolicy) (n : Nat) (h : j ∈ js) :
    ∃ s, (j, s) ∈ js.zip (runAll r policy n js) := by
  obtain ⟨s, hs, -⟩ := exists_of_forall₂_left (runs_runAll r policy n js) h
  exact ⟨s, hs⟩

theorem mem_runAll (h : s ∈ runAll r policy n js) : ∃ j ∈ js, ∃ k, s = j.run r policy k := by
  obtain ⟨j, hj⟩ := exists_job h
  exact ⟨j, (List.of_mem_zip hj).1, eq_run_of_mem hj⟩

theorem body_of_ofFunction {f : FunctionItem} (h : ofFunction r f = some j) :
    j.body = f.body ∧ f.body.isPresent = true := by
  unfold ofFunction at h
  split at h
  · split at h
    · next hbody =>
      cases h
      exact ⟨rfl, (Bool.and_eq_true_iff.mp hbody).2⟩
    · cases h
  · cases h

theorem body_of_ofMethod {m : MethodItem} (h : ofMethod r m = some j) :
    j.body = m.body ∧ m.body.isPresent = true := by
  unfold ofMethod at h
  obtain ⟨id, -, h⟩ := Option.bind_eq_some_iff.mp h
  obtain ⟨sig, -, h⟩ := Option.bind_eq_some_iff.mp h
  obtain ⟨info, -, h⟩ := Option.bind_eq_some_iff.mp h
  split at h
  · next hbody =>
    cases h
    exact ⟨rfl, (Bool.and_eq_true_iff.mp hbody).2⟩
  · cases h

theorem complete_of_mem_ofModule {m : Module} (hm : m.Complete) (h : j ∈ ofModule r m) :
    j.body.Complete ∧ j.body.isPresent = true := by
  rcases List.mem_append.mp h with h | h
  · obtain ⟨f, hf, hj⟩ := List.mem_filterMap.mp h
    obtain ⟨hbody, hpresent⟩ := body_of_ofFunction hj
    exact hbody ▸ ⟨hm.function f hf, hpresent⟩
  · obtain ⟨f, hf, hj⟩ := List.mem_filterMap.mp h
    obtain ⟨hbody, hpresent⟩ := body_of_ofMethod hj
    exact hbody ▸ ⟨hm.method f hf, hpresent⟩

theorem sublist_ids_filterMap {α : Type} {g : α → Option BodyJob} {body : α → Expr}
    (hg : ∀ {a j}, g a = some j → j.body = body a) (as : List α) :
    ((as.filterMap g).flatMap (·.body.ids)).Sublist (as.flatMap fun a => (body a).ids) := by
  induction as with
  | nil => exact .slnil
  | cons a as ih =>
    rw [List.filterMap_cons]
    split
    · exact ih.trans (List.sublist_append_right _ _)
    · next j hj =>
      rw [List.flatMap_cons, List.flatMap_cons, hg hj]
      exact ih.append_left _

theorem sublist_ids_ofModule (r : Registry) (m : Module) :
    ((ofModule r m).flatMap (·.body.ids)).Sublist
      (m.functions.flatMap (·.body.ids) ++ m.methods.flatMap (·.body.ids)) := by
  unfold ofModule
  rw [List.flatMap_append]
  exact (sublist_ids_filterMap (fun h => (body_of_ofFunction h).1) _).append
    (sublist_ids_filterMap (fun h => (body_of_ofMethod h).1) _)

end BodyJob

namespace Module

variable {m : Module} {count n : Nat} {config : CheckConfig} {tested : Path → Prop} {good : Ty → Prop}

theorem typeOf_checkNumbered {i : Nat} (h : i < count) :
    (m.checkNumbered count config).findings.typeOf i =
      ((m.registered.consts ++ m.states config).flatMap (·.types)).lookup i := by
  simp [CheckResult.findings, checkNumbered, h, registered, states, jobs]

theorem instOf_checkNumbered {i : Nat} (h : i < count) :
    (m.checkNumbered count config).findings.instOf i =
      ((m.registered.consts ++ m.states config).flatMap (·.insts)).lookup i := by
  have hlookup := lookup_filterMap_of_mem
    (fun i => ((m.registered.consts ++ m.states config).flatMap (·.insts)).lookup i) (List.mem_range.mpr h)
  exact hlookup

theorem checked_consts (m : Module) : List.Forall₂ ConstItem.ChecksTo m.consts m.registered.consts := by
  obtain ⟨bs, hbs, hchecks⟩ := (Register.clean_declarations (· ≠ .error) (fun _ => True) m {}).1.consts
  have heq : m.registered.consts = bs := hbs
  exact heq ▸ hchecks

theorem const_unrecorded {b : BodyState} (hb : b ∈ m.registered.consts) {i : Nat}
    (hi : i ∉ m.consts.flatMap (·.value.ids)) : b.typeOf i = none ∧ b.instOf i = none := by
  obtain ⟨k, hk, hchecks⟩ := exists_of_forall₂_right m.checked_consts hb
  refine Register.unrecorded_of_checksTo hchecks fun h => hi ?_
  exact List.mem_flatMap.mpr ⟨k, (List.of_mem_zip hk).1, h⟩

theorem lookup_checkNumbered (hnodup : m.ids.Nodup) (hcount : ∀ i ∈ m.ids, i < count) {j : BodyJob}
    {s : BodyState} (h : (j, s) ∈ m.jobs.zip (m.states config)) {i : Nat} (hi : i ∈ j.body.ids) :
    (m.checkNumbered count config).findings.typeOf i = s.typeOf i ∧
      (m.checkNumbered count config).findings.instOf i = s.instOf i := by
  have hsub := BodyJob.sublist_ids_ofModule m.registered.registry m
  rw [ids, List.append_assoc] at hnodup hcount
  obtain ⟨-, hbodies, happart⟩ := List.nodup_append.mp hnodup
  have hjobs : (m.jobs.flatMap (·.body.ids)).Nodup := hbodies.sublist hsub
  have hmem : i ∈ m.functions.flatMap (·.body.ids) ++ m.methods.flatMap (·.body.ids) :=
    hsub.subset (List.mem_flatMap.mpr ⟨j, (List.of_mem_zip h).1, hi⟩)
  have hconst : i ∉ m.consts.flatMap (·.value.ids) := fun hc => happart i hc i hmem rfl
  have hlt : i < count := hcount i (List.mem_append_right _ hmem)
  rw [typeOf_checkNumbered hlt, instOf_checkNumbered hlt, List.flatMap_append, List.flatMap_append,
    List.lookup_append, List.lookup_append,
    lookup_flatMap_eq_none fun b hb => (const_unrecorded hb hconst).1,
    lookup_flatMap_eq_none fun b hb => (const_unrecorded hb hconst).2]
  have hruns := BodyJob.runs_runAll m.registered.registry config.policy m.registered.nextVar m.jobs
  refine ⟨lookup_flatMap_zip hruns ?_ hjobs h hi, lookup_flatMap_zip hruns ?_ hjobs h hi⟩
  · rintro j _ i ⟨n, rfl⟩ hout
    exact (BodyJob.writes_run _ _ n j).typeOf i hout
  · rintro j _ i ⟨n, rfl⟩ hout
    exact (BodyJob.writes_run _ _ n j).instOf i hout

theorem lookup_states_eq_none (config : CheckConfig) (hnodup : m.ids.Nodup) {i : Nat}
    (hi : i ∈ m.consts.flatMap (·.value.ids)) :
    ((m.states config).flatMap (·.types)).lookup i = none ∧
      ((m.states config).flatMap (·.insts)).lookup i = none := by
  rw [ids, List.append_assoc] at hnodup
  have happart := (List.nodup_append.mp hnodup).2.2
  have hout {s : BodyState} (hs : s ∈ m.states config) : s.typeOf i = none ∧ s.instOf i = none := by
    obtain ⟨j, hj, n, rfl⟩ := BodyJob.mem_runAll hs
    have hnot : i ∉ j.body.ids := fun hij => happart i hi i
      ((BodyJob.sublist_ids_ofModule _ m).subset (List.mem_flatMap.mpr ⟨j, hj, hij⟩)) rfl
    exact ⟨(BodyJob.writes_run _ _ n j).typeOf i hnot, (BodyJob.writes_run _ _ n j).instOf i hnot⟩
  exact ⟨lookup_flatMap_eq_none fun s hs => (hout hs).1, lookup_flatMap_eq_none fun s hs => (hout hs).2⟩

theorem lookup_const (hnodup : m.ids.Nodup) (hcount : ∀ i ∈ m.ids, i < count) {k : ConstItem} {b : BodyState}
    (h : (k, b) ∈ m.consts.zip m.registered.consts) {i : Nat} (hi : i ∈ k.value.ids) :
    (m.checkNumbered count config).findings.typeOf i = b.typeOf i ∧
      (m.checkNumbered count config).findings.instOf i = b.instOf i := by
  have hmem : i ∈ m.consts.flatMap (·.value.ids) := List.mem_flatMap.mpr ⟨k, (List.of_mem_zip h).1, hi⟩
  obtain ⟨htypes, hinsts⟩ := lookup_states_eq_none config hnodup hmem
  rw [ids, List.append_assoc] at hnodup hcount
  have hlt : i < count := hcount i (List.mem_append_left _ hmem)
  rw [typeOf_checkNumbered hlt, instOf_checkNumbered hlt, List.flatMap_append, List.flatMap_append,
    List.lookup_append, List.lookup_append, htypes, hinsts, Option.or_none, Option.or_none]
  have hconsts := (List.nodup_append.mp hnodup).1
  exact ⟨lookup_flatMap_zip m.checked_consts (fun _ _ _ hchecks hout =>
      (Register.unrecorded_of_checksTo hchecks hout).1) hconsts h hi,
    lookup_flatMap_zip m.checked_consts (fun _ _ _ hchecks hout =>
      (Register.unrecorded_of_checksTo hchecks hout).2) hconsts h hi⟩

theorem follows_const (hnodup : m.ids.Nodup) (hcount : ∀ i ∈ m.ids, i < count) {k : ConstItem} {b : BodyState}
    (h : (k, b) ∈ m.consts.zip m.registered.consts) :
    (m.checkNumbered count config).findings.Follows b k.value.ids where
  errors e he := by
    refine List.mem_append_right _ (List.mem_flatMap.mpr ⟨b, List.mem_append_left _ ?_, he⟩)
    exact (List.of_mem_zip h).2
  running := Register.running_of_checksTo ((List.forall₂_iff_zip.mp m.checked_consts).2 h)
  typeOf _ hi := (lookup_const hnodup hcount h hi).1
  instOf _ hi := (lookup_const hnodup hcount h hi).2

theorem follows_checkNumbered (hnodup : m.ids.Nodup) (hcount : ∀ i ∈ m.ids, i < count) {j : BodyJob}
    {s : BodyState} (h : (j, s) ∈ m.jobs.zip (m.states config)) (hs : s.aborted = false) :
    (m.checkNumbered count config).findings.Follows s j.body.ids where
  errors e he := by
    refine List.mem_append_right _ (List.mem_flatMap.mpr ⟨s, List.mem_append_right _ ?_, he⟩)
    exact (List.of_mem_zip h).2
  running := hs
  typeOf _ hi := (lookup_checkNumbered hnodup hcount h hi).1
  instOf _ hi := (lookup_checkNumbered hnodup hcount h hi).2

theorem errors_of_mem {s : BodyState} (h : s ∈ m.registered.consts ++ m.states config)
    (hnone : (m.checkNumbered count config).errors = []) : s.errors = [] :=
  List.flatMap_eq_nil_iff.mp (List.append_eq_nil_iff.mp hnone).2 s h

theorem errors_of_mem_states {s : BodyState} (h : s ∈ m.states config)
    (hnone : (m.checkNumbered count config).errors = []) : s.errors = [] :=
  errors_of_mem (List.mem_append_right _ h) hnone

theorem loose_check (tested : Path → Prop) {j : BodyJob} {s : BodyState}
    (h : (j, s) ∈ m.number.1.jobs.zip (m.number.1.states config))
    (hrun : config.policy = .recover ∨ (m.check config).errors = [])
    (L : BodyClosure (j.context (m.check config).registry config.policy) good)
    (hF : (m.check config).findings.Permits good) (hp : ∀ p ∈ j.params, good p.ty)
    (ht : ∀ p ∈ j.body.tested, tested p)
    (hg : ∀ p ∈ j.body.sources, (m.check config).findings.Gathers good p)
    (hbody : j.body.Complete ∧ j.body.isPresent = true ∨ good .error) :
    j.Checked (m.check config).findings (j.context (m.check config).registry config.policy) tested good s
      (Ty.Loose good) := by
  have hcounts := m.counts_number
  have hnodup : j.body.ids.Nodup := by
    have hsub := BodyJob.sublist_ids_ofModule m.number.1.registered.registry m.number.1
    have hids := hcounts.nodup
    rw [ids, List.append_assoc] at hids
    exact (List.nodup_flatMap.mp ((List.nodup_append.mp hids).2.1.sublist hsub)).1 j (List.of_mem_zip h).1
  obtain ⟨n, rfl⟩ := BodyJob.eq_run_of_mem h
  have hrunning := BodyJob.running_run (hrun.imp_right (errors_of_mem_states (List.of_mem_zip h).2))
  have hfollows := follows_checkNumbered hcounts.nodup (fun i hi => (hcounts.mem hi).2) h hrunning
  exact BodyJob.checked_run tested L hF hp hnodup ht hg hbody hfollows

theorem checked_check (tested : Path → Prop) {j : BodyJob} {s : BodyState}
    (h : (j, s) ∈ m.number.1.jobs.zip (m.number.1.states config))
    (hrun : config.policy = .recover ∨ (m.check config).errors = [])
    (L : BodyLaws (j.context (m.check config).registry config.policy) good)
    (hF : (m.check config).findings.Permits good) (hp : ∀ p ∈ j.params, good p.ty)
    (ht : ∀ p ∈ j.body.tested, tested p) (hbody : j.body.Complete ∧ j.body.isPresent = true ∨ good .error) :
    j.Checked (m.check config).findings (j.context (m.check config).registry config.policy) tested good s := by
  have hchecked := loose_check tested h hrun L.toClosure hF hp ht (fun _ _ t _ => L.types.untyped t) hbody
  exact { hchecked with records := hchecked.records.imp fun t => L.types.loose_iff.mp }

end Module

end TypeFlow
