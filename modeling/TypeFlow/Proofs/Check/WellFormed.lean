import TypeFlow.Check.Unit
import TypeFlow.Proofs.Check.Registration

namespace TypeFlow

def CheckResult.Records (c : CheckResult) (t : Ty) : Prop :=
  some t ∈ c.types ∨ ∃ e ∈ c.insts, t ∈ e.2.typeArgs

structure Registry.Supplies (r : Registry) (good : Generics → Ty → Prop) : Prop where
  closed : ∀ gs, Ty.Closed (good gs)
  function : ∀ sig ∈ r.functions, sig.All (good sig.generics)
  method : ∀ {m info}, m ∈ r.methods → r.decl? m.receiver = some info → m.sig.All (good info.generics)
  receiver : ∀ {d info}, r.decl? d = some info →
    good info.generics (info.instantiate d (info.generics.map (·.ty)))

theorem Registry.Sound.supplies {r : Registry} {p : Prop} {o : Outline} (h : r.Sound p o) :
    r.Supplies fun gs => o.Typed p gs.tys where
  closed _ := Outline.closed_typed
  function sig hsig := (h.function sig hsig).1
  method hm hinfo := h.method _ hm _ (Registry.shape_of_decl? h hinfo)
  receiver hinfo := by
    refine Registry.typed_instantiate h hinfo (List.length_map _) ?_
    exact List.forall_mem_map.mpr fun _ hg => Outline.typed_param (List.mem_map_of_mem hg)

namespace BodyJob

variable {p : Prop} {o : Outline} {r : Registry}

structure Holds (good : Ty → Prop) (j : BodyJob) : Prop where
  param : ∀ p ∈ j.params, good p.ty
  ret : good j.ret

theorem good_packLast {good : Ty → Prop} (hg : Ty.Closed good) {ps : List ParamSig}
    (h : ∀ p ∈ ps, good p.ty) : ∀ p ∈ packLast ps, good p.ty := by
  induction ps with
  | nil => exact nofun
  | cons p ps ih =>
    obtain ⟨hp, hps⟩ := List.forall_mem_cons.mp h
    cases ps with
    | nil => exact List.forall_mem_singleton.mpr (hg.single rfl rfl hp)
    | cons q qs => exact List.forall_mem_cons.mpr ⟨hp, ih hps⟩

variable {good : Generics → Ty → Prop}

theorem holds_ofFunction (h : r.Supplies good) {f : FunctionItem} {j : BodyJob}
    (k : ofFunction r f = some j) : j.Holds (good j.generics) := by
  unfold ofFunction at k
  split at k
  · next sig hsig =>
    have hs := h.function sig (List.mem_of_find?_eq_some hsig)
    split at k <;> cases k
    refine ⟨?_, hs.ret⟩
    show ∀ p ∈ if sig.variadic then packLast sig.params else sig.params, good sig.generics p.ty
    split
    · exact good_packLast (h.closed _) hs.param
    · exact hs.param
  · cases k

theorem holds_ofMethod (h : r.Supplies good) {m : MethodItem} {j : BodyJob}
    (k : ofMethod r m = some j) : j.Holds (good j.generics) := by
  unfold ofMethod at k
  obtain ⟨id, -, k⟩ := Option.bind_eq_some_iff.mp k
  obtain ⟨sig, hsig, k⟩ := Option.bind_eq_some_iff.mp k
  obtain ⟨info, hinfo, k⟩ := Option.bind_eq_some_iff.mp k
  obtain ⟨hmem, rfl⟩ := Registry.receiver_of_method hsig
  have hs := h.method hmem hinfo
  split at k <;> cases k
  exact ⟨List.forall_mem_cons.mpr ⟨h.receiver hinfo, hs.param⟩, hs.ret⟩

theorem holds_ofModule (h : r.Supplies good) (m : Module) :
    ∀ j ∈ ofModule r m, j.Holds (good j.generics) := by
  refine List.forall_mem_append.mpr ⟨fun j hj => ?_, fun j hj => ?_⟩
  · obtain ⟨f, -, hf⟩ := List.mem_filterMap.mp hj
    exact holds_ofFunction h hf
  · obtain ⟨f, -, hf⟩ := List.mem_filterMap.mp hj
    exact holds_ofMethod h hf

theorem plan_bindParams {c : BodyContext} {T : Theory c} {A : Prop} {g : Spot} {ps : List ParamSig}
    (h : ∀ p ∈ ps, T.good p.ty) : Plan T A g [] (bindParams ps) fun _ _ => True := by
  induction ps generalizing A g with
  | nil => exact .pure fun _ => True.intro
  | cons p ps ih =>
    obtain ⟨hp, hps⟩ := List.forall_mem_cons.mp h
    exact .bind (.bindLocal p.name p.mutable fun _ => hp) fun _ _ _ => ih hps

theorem plan_check {c : BodyContext} {T : Theory c} {A : Prop} {g : Spot} {σ : Scope} {j : BodyJob}
    (h : j.Holds T.good) (hbody : T.runs j.body.asChild) (hfinal : ¬ T.final) :
    Plan T A g [j.body.asChild.turn σ] j.check fun _ _ => True := by
  refine (plan_bindParams h.param).andThen fun _ k => Rule.ite (fun _ => ?_) fun _ => ?_
  · exact Plan.imp (rule_discarded hbody fun _ hf => absurd hf hfinal).ignored fun _ _ _ _ => True.intro
  · refine Plan.imp (rule_check hbody (fun _ => .inl h.ret) fun _ hf => absurd hf hfinal).ignored ?_
    exact fun _ _ _ _ => True.intro

theorem holds_check {c : BodyContext} {V : BodyInvariant c} {j : BodyJob} (h : j.Holds V.good)
    (hbody : V.Checks j.body.asChild) {s : BodyState} (hs : V.holds s) :
    V.holds (j.check.after c s) := by
  have hplan : Plan V.theory True ⟨0, s.scope, none⟩ [j.body.asChild.turn s.scope] j.check
      fun _ _ => True := plan_check h hbody id
  obtain ⟨k, -, -, hholds, -⟩ := hplan.keeps True.intro hs rfl
  exact hholds

theorem holds_run (h : r.Sound p o) (policy : ErrorPolicy) (n : Nat) {j : BodyJob}
    (hj : j.Holds (o.Typed p j.generics.tys)) :
    (j.run r policy n).Holds (o.Typed p j.generics.tys) := by
  let c : BodyContext := { registry := r, generics := j.generics, returnType := j.ret, policy }
  have L : TypeLaws c (o.Typed p j.generics.tys) := Registry.Sound.laws h hj.ret
  let V := L.recorded Outline.typed_error
  have hbody : V.Checks j.body.asChild := BodyInvariant.checks _ (fun _ _ => True.intro) fun _ _ => True.intro
  exact holds_check hj hbody (.initial n)

theorem runs_runAll (r : Registry) (policy : ErrorPolicy) (n : Nat) (js : List BodyJob) :
    List.Forall₂ (fun j s => ∃ k, s = j.run r policy k) js (runAll r policy n js) := by
  induction js generalizing n with
  | nil => exact .nil
  | cons j js ih => exact .cons ⟨n, rfl⟩ (ih _)

theorem eq_run_of_mem {policy : ErrorPolicy} {n : Nat} {j : BodyJob} {s : BodyState} {js : List BodyJob}
    (h : (j, s) ∈ js.zip (runAll r policy n js)) : ∃ k, s = j.run r policy k :=
  (List.forall₂_iff_zip.mp (runs_runAll r policy n js)).2 h

theorem holds_runAll (h : r.Sound p o) (policy : ErrorPolicy) (n : Nat) {js : List BodyJob}
    (hjs : ∀ j ∈ js, j.Holds (o.Typed p j.generics.tys)) :
    ∀ e ∈ js.zip (runAll r policy n js), e.2.Holds (o.Typed p e.1.generics.tys) := by
  rintro ⟨j, s⟩ he
  obtain ⟨k, rfl⟩ := eq_run_of_mem he
  exact holds_run h policy k (hjs j (List.of_mem_zip he).1)

theorem exists_job {policy : ErrorPolicy} {n : Nat} {s : BodyState} {js : List BodyJob}
    (h : s ∈ runAll r policy n js) : ∃ j, (j, s) ∈ js.zip (runAll r policy n js) := by
  obtain ⟨j, hj, -⟩ := exists_of_forall₂_right (runs_runAll r policy n js) h
  exact ⟨j, hj⟩

end BodyJob

namespace Module

def registered (m : Module) : Registration := ((Register.declarations m).run {}).2

def jobs (m : Module) : List BodyJob := BodyJob.ofModule m.registered.registry m

def states (m : Module) (config : CheckConfig) : List BodyState :=
  BodyJob.runAll m.registered.registry config.policy m.registered.nextVar m.jobs

theorem sound_registered (m : Module) : ∃ o, m.registered.Sound m.InOrder o := Register.sound_declarations m

theorem recorded_of_records_checkNumbered {m : Module} {count : Nat} {config : CheckConfig} {t : Ty}
    (h : (m.checkNumbered count config).Records t) :
    ∃ b ∈ m.registered.consts ++ m.states config,
      (∃ i, (i, t) ∈ b.types) ∨ ∃ e ∈ b.insts, t ∈ e.2.typeArgs := by
  rcases h with h | ⟨e, he, ht⟩
  · obtain ⟨id, -, hid⟩ := List.mem_map.mp h
    obtain ⟨b, hb, hmem⟩ := List.mem_flatMap.mp (mem_of_lookup hid)
    exact ⟨b, hb, .inl ⟨id, hmem⟩⟩
  · obtain ⟨id, -, hid⟩ := List.mem_filterMap.mp he
    obtain ⟨i, hi, rfl⟩ := Option.map_eq_some_iff.mp hid
    obtain ⟨b, hb, hmem⟩ := List.mem_flatMap.mp (mem_of_lookup hi)
    exact ⟨b, hb, .inr ⟨_, hmem, ht⟩⟩

theorem wellFormed_of_records_checkNumbered {m : Module} {count : Nat} {config : CheckConfig} {t : Ty}
    (h : (m.checkNumbered count config).Records t) :
    (m.checkNumbered count config).registry.outline.WellFormed t := by
  obtain ⟨o, hreg⟩ := m.sound_registered
  have hjobs := BodyJob.holds_runAll hreg.registry config.policy m.registered.nextVar
    (BodyJob.holds_ofModule hreg.registry.supplies m)
  have hbodies : ∀ b ∈ m.registered.consts ++ m.states config, b.Holds o.WellFormed :=
    List.forall_mem_append.mpr ⟨fun b hb => (hreg.const b hb).imp fun _ => Outline.Typed.wellFormed,
      fun b hb => by
        obtain ⟨j, hj⟩ := BodyJob.exists_job hb
        exact (hjobs _ hj).imp fun _ => Outline.Typed.wellFormed⟩
  have ho : (m.checkNumbered count config).registry.outline = o := hreg.registry.outline
  rw [ho]
  obtain ⟨b, hb, ⟨i, hi⟩ | ⟨e, he, ht⟩⟩ := recorded_of_records_checkNumbered h
  · exact (hbodies b hb).type _ hi
  · exact (hbodies b hb).inst _ he t ht

theorem everywhere_declares_of_records_check (m : Module) (config : CheckConfig) {t : Ty}
    (h : (m.check config).Records t) :
    t.Everywhere fun u => (∀ v, u ≠ .var v) ∧ (m.check config).registry.Declares u :=
  (wellFormed_of_records_checkNumbered h).imp fun _ => Registry.declares_of_admits

def boxes : Module where
  structs := [⟨"Box", [⟨"T", .type [] none, {}⟩], [⟨"value", .named "T" [], {}⟩], [], {}⟩]
  functions := [⟨"main", [], [], false, none,
    .block {} [.expr {} (.construct {} "Box" [] [.mk "value" (.int {} 1) {}])] .missing, {}⟩]

theorem everywhere_declares_boxes :
    (boxes.check {}).Records (.named 0 [.prim .i32]) ∧
      (Ty.named 0 [.prim .i32]).Everywhere fun u =>
        (∀ v, u ≠ .var v) ∧ (boxes.check {}).registry.Declares u := by
  have h : (boxes.check {}).Records (.named 0 [.prim .i32]) := .inl (by decide +kernel)
  exact ⟨h, everywhere_declares_of_records_check boxes {} h⟩

end Module

end TypeFlow
