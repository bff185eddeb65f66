import TypeFlow.Proofs.Check.Units

namespace TypeFlow

theorem Outline.Typed.isClosed {o : Outline} {p : Prop} {t : Ty} (h : o.Typed p [] t) (hp : p) :
    t.flags.isClosed = true := by
  refine Ty.isClosed_iff.mpr ⟨Outline.varFree_of_wellFormed h.wellFormed, h.imp fun u hu x i heq => ?_⟩
  exact List.not_mem_nil (hu.2 hp x i heq)

def Findings.RecordsAt (F : Findings) (i : Nat) (t : Ty) : Prop :=
  F.typeOf i = some t ∨ ∃ inst, F.instOf i = some inst ∧ t ∈ inst.typeArgs

namespace Module

theorem genericLists_number (m : Module) : m.number.1.genericLists = m.genericLists := by
  have hfunctions (fs : List FunctionItem) (n : Nat) :
      (numberFunctions fs n).1.map (·.generics) = fs.map (·.generics) := by
    induction fs generalizing n with
    | nil => rfl
    | cons f fs ih => exact congrArg (f.generics :: ·) (ih _)
  exact congrArg (m.structs.map (·.generics) ++ m.interfaces.map (·.generics) ++ ·) (hfunctions _ _)

theorem inOrder_number {m : Module} (hdefaults : ∀ gs ∈ m.genericLists, GenericItem.DefaultsInOrder gs)
    (hconsts : ∀ gs ∈ m.genericLists, GenericItem.ConstsPlain gs) : m.number.1.InOrder := by
  rw [InOrder, genericLists_number]
  exact fun gs hgs => ⟨hdefaults gs hgs, hconsts gs hgs⟩

variable {m : Module} {count : Nat} {config : CheckConfig} {good : Ty → Prop}

theorem good_of_recordsAt_job (hnodup : m.ids.Nodup) (hcount : ∀ i ∈ m.ids, i < count) {j : BodyJob}
    {s : BodyState} (h : (j, s) ∈ m.jobs.zip (m.states config)) (hs : s.Holds good) {i : Nat}
    (hi : i ∈ j.body.ids) {t : Ty} (ht : (m.checkNumbered count config).findings.RecordsAt i t) :
    good t := by
  obtain ⟨htype, hinst⟩ := lookup_checkNumbered hnodup hcount h hi
  rcases ht with ht | ⟨inst, hlookup, ht⟩
  · exact hs.type _ (mem_of_lookup (htype.symm.trans ht))
  · exact hs.inst _ (mem_of_lookup (hinst.symm.trans hlookup)) t ht

theorem good_of_recordsAt_const (hnodup : m.ids.Nodup) (hcount : ∀ i ∈ m.ids, i < count)
    (h : ∀ b ∈ m.registered.consts, b.Holds good) {i : Nat} (hi : i ∈ m.consts.flatMap (·.value.ids))
    {t : Ty} (ht : (m.checkNumbered count config).findings.RecordsAt i t) : good t := by
  have hlt : i < count := hcount i (by simp [ids, List.mem_append_left _ hi])
  obtain ⟨htypes, hinsts⟩ := lookup_states_eq_none config hnodup hi
  rw [Findings.RecordsAt, typeOf_checkNumbered hlt, instOf_checkNumbered hlt, List.flatMap_append,
    List.flatMap_append, List.lookup_append, List.lookup_append, htypes, hinsts, Option.or_none,
    Option.or_none] at ht
  rcases ht with ht | ⟨inst, hlookup, ht⟩
  · obtain ⟨b, hb, hmem⟩ := List.mem_flatMap.mp (mem_of_lookup ht)
    exact (h b hb).type _ hmem
  · obtain ⟨b, hb, hmem⟩ := List.mem_flatMap.mp (mem_of_lookup hlookup)
    exact (h b hb).inst _ hmem t ht

theorem knownTo_check (m : Module) (config : CheckConfig)
    (hdefaults : ∀ gs ∈ m.genericLists, GenericItem.DefaultsInOrder gs)
    (hconsts : ∀ gs ∈ m.genericLists, GenericItem.ConstsPlain gs) :
    (∀ j ∈ BodyJob.ofModule (m.check config).registry m.number.1, ∀ i ∈ j.body.ids, ∀ t,
      (m.check config).findings.RecordsAt i t →
        t.Everywhere (Ty.KnownTo j.generics.tys) ∧ (j.generics = [] → t.flags.isClosed = true)) ∧
    ∀ c ∈ m.number.1.consts, ∀ i ∈ c.value.ids, ∀ t,
      (m.check config).findings.RecordsAt i t → t.flags.isClosed = true := by
  have hcounts := m.counts_number
  have horder : m.number.1.InOrder := inOrder_number hdefaults hconsts
  obtain ⟨o, hreg⟩ := m.number.1.sound_registered
  refine ⟨fun j hj i hi t ht => ?_, fun c hc i hi t ht => ?_⟩
  · obtain ⟨s, hs⟩ := BodyJob.exists_run m.number.1.registered.registry config.policy
      m.number.1.registered.nextVar hj
    have hholds := BodyJob.holds_runAll hreg.registry config.policy m.number.1.registered.nextVar
      (BodyJob.holds_ofModule hreg.registry.supplies m.number.1) (j, s) hs
    have htyped := good_of_recordsAt_job hcounts.nodup (fun i hi => (hcounts.mem hi).2) hs hholds hi ht
    refine ⟨htyped.imp fun u hu => hu.2 horder, fun hnone => ?_⟩
    rw [hnone] at htyped
    exact htyped.isClosed horder
  · have hmem : i ∈ m.number.1.consts.flatMap (·.value.ids) := List.mem_flatMap.mpr ⟨c, hc, hi⟩
    have htyped := good_of_recordsAt_const hcounts.nodup (fun i hi => (hcounts.mem hi).2) hreg.const hmem ht
    exact htyped.isClosed horder

def pairs : Module where
  structs := [⟨"Pair", [⟨"A", .type [] none, {}⟩, ⟨"B", .type [] (some (.named "A" [])), {}⟩],
    [⟨"first", .named "A" [], {}⟩, ⟨"second", .named "B" [], {}⟩], [], {}⟩]
  functions := [⟨"twice", [⟨"T", .type [] none, {}⟩], [⟨"x", .named "T" [], false, {}⟩], false, none,
    .block {} [.expr {} (.construct {} "Pair" [.type (.named "T" [])]
      [.mk "first" (.ident {} "x") {}, .mk "second" (.ident {} "x") {}])] .missing, {}⟩]

theorem knownTo_pairs : ∃ j ∈ BodyJob.ofModule (pairs.check {}).registry pairs.number.1,
    (pairs.check {}).findings.typeOf 2 = some (.named 0 [.param "T" 0, .param "T" 0]) ∧
      (Ty.named 0 [.param "T" 0, .param "T" 0]).Everywhere (Ty.KnownTo j.generics.tys) := by
  have hany : (BodyJob.ofModule (pairs.check {}).registry pairs.number.1).any (2 ∈ ·.body.ids) = true := by
    decide +kernel
  have htype : (pairs.check {}).findings.typeOf 2 = some (.named 0 [.param "T" 0, .param "T" 0]) := by
    decide +kernel
  obtain ⟨j, hj, hi⟩ := List.any_eq_true.mp hany
  have hbodies := (knownTo_check pairs {} (by decide) (by decide)).1
  exact ⟨j, hj, htype, (hbodies j hj 2 (of_decide_eq_true hi) _ (.inl htype)).1⟩

end Module

end TypeFlow
