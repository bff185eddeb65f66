import TypeFlow.Proofs.Check.Units
import TypeFlow.Proofs.Infer.Courses.Nodes

namespace TypeFlow

open Infer (Course)

namespace Expr

theorem operands_subset (e : Expr) : e.operands ⊆ e.parts := by
  cases e
  case call | construct => exact List.subset_append_right _ _
  all_goals exact List.Subset.refl _

theorem Node.mem_ids {e n : Expr} {site : Site} (h : e.Node n) (hs : n.site? = some site) :
    site.id ∈ e.ids := by
  induction h with
  | here e => simp [ids_of_site hs]
  | @inside e p n hp _ ih =>
    rw [ids_eq]
    exact List.mem_append_left _ (List.mem_flatMap.mpr ⟨p, operands_subset e hp, ih hs⟩)

end Expr

theorem Infer.Course.reached {c : BodyContext} {I : List Span → Prop} {A : Prop} {L : List Span}
    {E : List Expr} {α : Type} {x : Infer α} {Q : α → Prop} {s : BodyState} {e : Expr}
    (h : Course c I A L E x Q) (hs : s.aborted = false) (hx : (x.after c s).aborted = false) (he : e ∈ E) :
    (x.after c s).Reached e := by
  rcases h.live s hs with hadv | ⟨hhalts, -⟩
  · exact hadv.reached e he
  · exact nomatch hx.symm.trans hhalts.stopped

namespace Register

theorem course_constType (c : BodyContext) (item : ConstItem) (declared : Option Ty) :
    Course c item.value.Stops False [] [item.value] (constType item declared) fun _ => True := by
  have hvalue : item.value.asChild.Runs c item.value.Stops := item.value.runs c
  unfold constType
  split
  · exact (Infer.course_check hvalue _).discard.returns _
  · refine Infer.course_operand hvalue none (.done _) fun t _ => ?_
    exact .ite (fun _ => Infer.course_error _ _) fun _ => .done _

theorem reached_of_checksTo {item : ConstItem} {b : BodyState} (h : item.ChecksTo b) : b.Reached item.value := by
  have hrunning := running_of_checksTo h
  obtain ⟨c, declared, n, -, rfl⟩ := h
  exact (course_constType c item declared).reached rfl hrunning (by simp)

end Register

namespace BodyJob

theorem course_body (c : BodyContext) (j : BodyJob) :
    Course c j.body.Stops False [] [j.body] (if j.ret == .unit then discard j.body.asChild.discarded
      else discard <| Infer.check j.body.asChild j.ret : Infer Unit) fun _ => True := by
  have hbody : j.body.asChild.Runs c j.body.Stops := j.body.runs c
  refine .ite (fun _ => ?_) fun _ => (Infer.course_check hbody _).discard
  exact (Infer.course_inferIn hbody none false).discard

theorem reached_run {j : BodyJob} {r : Registry} {policy : ErrorPolicy} {n : Nat}
    (h : (j.run r policy n).aborted = false) : (j.run r policy n).Reached j.body := by
  rw [run_eq] at h ⊢
  exact (course_body (j.context r policy) j).reached rfl h (by simp)

end BodyJob

def CheckResult.Reaches (res : CheckResult) (e : Expr) : Prop :=
  ∀ n site, e.Node n → n.site? = some site → ∃ t, res.types[site.id]? = some (some t)

namespace Module

variable {m : Module} {config : CheckConfig}

theorem reaches_of_reached {b : BodyState} {e : Expr}
    (hb : b ∈ m.number.1.registered.consts ++ m.number.1.states config) (he : b.Reached e)
    (hids : e.ids ⊆ m.number.1.ids) : (m.check config).Reaches e := by
  intro n site hn hs
  have hlt : site.id < m.number.2 := (m.counts_number.mem (hids (hn.mem_ids hs))).2
  have hsome := he n site hn hs
  obtain ⟨t, ht⟩ := Option.isSome_iff_exists.mp hsome
  have hlookup : (((m.number.1.registered.consts ++ m.number.1.states config).flatMap (·.types)).lookup
      site.id).isSome = true :=
    isSome_lookup_of_mem (List.mem_flatMap.mpr ⟨b, hb, mem_of_lookup ht⟩)
  rw [← typeOf_checkNumbered hlt] at hlookup
  obtain ⟨u, hu⟩ := Option.isSome_iff_exists.mp hlookup
  exact ⟨u, Option.join_eq_some_iff.mp hu⟩

theorem reaches_job (hrun : config.policy = .recover ∨ (m.check config).errors = []) {j : BodyJob}
    (hj : j ∈ BodyJob.ofModule (m.check config).registry m.number.1) : (m.check config).Reaches j.body := by
  obtain ⟨s, hs⟩ := BodyJob.exists_run m.number.1.registered.registry config.policy
    m.number.1.registered.nextVar hj
  obtain ⟨n, rfl⟩ := BodyJob.eq_run_of_mem hs
  have hrunning := BodyJob.running_run (hrun.imp_right (errors_of_mem_states (List.of_mem_zip hs).2))
  refine reaches_of_reached (List.mem_append_right _ (List.of_mem_zip hs).2) (BodyJob.reached_run hrunning) ?_
  have hsub := (BodyJob.sublist_ids_ofModule m.number.1.registered.registry m.number.1).subset
  rw [ids, List.append_assoc]
  exact fun i hi => List.mem_append_right _ (hsub (List.mem_flatMap.mpr ⟨j, hj, hi⟩))

theorem reaches_const {k : ConstItem} (hk : k ∈ m.number.1.consts) : (m.check config).Reaches k.value := by
  obtain ⟨b, hb, hchecks⟩ := exists_of_forall₂_left m.number.1.checked_consts hk
  have hreached : b.Reached k.value := Register.reached_of_checksTo hchecks
  refine reaches_of_reached (List.mem_append_left _ (List.of_mem_zip hb).2) hreached fun i hi => ?_
  rw [ids, List.append_assoc]
  exact List.mem_append_left _ (List.mem_flatMap.mpr ⟨k, hk, hi⟩)

theorem reaches_check (m : Module) {config : CheckConfig} (h : config.policy = .recover) :
    (∀ j ∈ BodyJob.ofModule (m.check config).registry m.number.1, (m.check config).Reaches j.body) ∧
      ∀ k ∈ m.number.1.consts, (m.check config).Reaches k.value :=
  ⟨fun _ => reaches_job (.inl h), fun _ => reaches_const⟩

def callsUnknown : Module where
  functions := [⟨"main", [], [], false, none,
    .block {} [.expr {} (.call {} "f" [] [.ident {} "missing"])] .missing, {}⟩]

theorem reaches_callsUnknown : (callsUnknown.check {}).errors.length = 2 ∧
    ∀ j ∈ BodyJob.ofModule (callsUnknown.check {}).registry callsUnknown.number.1,
      (callsUnknown.check {}).Reaches j.body :=
  ⟨by decide +kernel, (reaches_check callsUnknown rfl).1⟩

end Module

end TypeFlow
