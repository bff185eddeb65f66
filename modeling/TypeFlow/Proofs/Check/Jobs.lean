import TypeFlow.Check.Bodies
import TypeFlow.Proofs.Infer.Sequential
import TypeFlow.Proofs.Infer.Soundness

namespace TypeFlow

open BodyState (Writes)

namespace Infer

theorem writes_requireAssignable (c : BodyContext) (span : Span) (t u : Ty) (s : BodyState) :
    Writes c [] s ((requireAssignable span t u).after c s) := by
  rw [after_requireAssignable]
  split
  · exact .refl _ s
  · exact BodyState.writes_report s span _

theorem records_requireAssignable {c : BodyContext} {good : Ty → Prop} {span : Span} {t u : Ty}
    {s : BodyState} (h : s.Records good) : ((requireAssignable span t u).after c s).Records good := by
  rw [after_requireAssignable]
  split
  · exact h
  · exact ⟨h.type, h.inst⟩

end Infer

variable {c : BodyContext} {tested : Path → Prop} {good : Ty → Prop} {F : Findings}

theorem Findings.Follows.requireAssignable {span : Span} {t u : Ty} {s : BodyState} {is : List Nat}
    (h : F.Follows ((Infer.requireAssignable span t u).after c s) is) (tested : Path → Prop) (good : Ty → Prop) :
    F.Follows s is ∧ (F.account c tested good).Allows u t := by
  have hwrites := Infer.writes_requireAssignable c span t u s
  refine ⟨h.of_writes hwrites fun _ _ => List.not_mem_nil, ?_⟩
  have hs : s.aborted = false := hwrites.running h.running
  have herrors := h.errors
  rw [Infer.after_requireAssignable, hs, Bool.false_or] at herrors
  split at herrors
  · next hassign => exact .inl hassign
  · refine .inr (.inr ⟨span, ⟨span, .mismatch t u⟩, herrors ?_, rfl⟩)
    exact List.mem_append_right _ (List.mem_singleton.mpr rfl)

namespace BodyJob

variable {r : Registry} {policy : ErrorPolicy}

theorem check_of_sequential {pattern : Ty → Prop} {P : ∀ {α : Type}, Infer α → Prop}
    (hP : Infer.Sequential c pattern P) (j : BodyJob) (h : ∀ x used, P (j.body.asChild.run x used)) :
    P j.check := by
  have hparams (ps : List ParamSig) : P (bindParams ps) := by
    induction ps with
    | nil => exact hP.pure _
    | cons p ps ih => exact hP.bind (hP.bindLocal _ _ _) fun _ => ih
  refine hP.bind (hparams _) fun _ => ?_
  split
  · exact hP.bind (hP.bind (h none false) fun _ => hP.pure _) fun _ => hP.pure _
  · exact hP.bind (hP.check h _) fun _ => hP.pure _

def bindAll (ps : List ParamSig) (σ : Scope) : Scope := ps.foldl (fun σ p => σ.bind p.name ⟨p.ty, p.mutable⟩) σ

def scope (j : BodyJob) : Scope := bindAll j.params {}

theorem after_bindParams (c : BodyContext) (ps : List ParamSig) {s : BodyState} (h : s.flow = {}) :
    (bindParams ps).after c s = { s with scope := bindAll ps s.scope } := by
  induction ps generalizing s with
  | nil => rfl
  | cons p ps ih =>
    have hbind : (Infer.bindLocal p.name p.ty p.mutable).after c s =
        { s with scope := s.scope.bind p.name ⟨p.ty, p.mutable⟩ } := by
      obtain ⟨scope, flow, _⟩ := s
      cases h
      rfl
    rw [bindParams, Infer.after_bind, hbind]
    exact ih h

theorem holds_bindAll {ps : List ParamSig} {σ : Scope} (hσ : σ.Holds good) (h : ∀ p ∈ ps, good p.ty) :
    (bindAll ps σ).Holds good := by
  induction ps generalizing σ with
  | nil => exact hσ
  | cons p ps ih =>
    obtain ⟨hp, hps⟩ := List.forall_mem_cons.mp h
    exact ih (hσ.bind hp) hps

def start (n : Nat) (j : BodyJob) : BodyState := { scope := j.scope, nextVar := n }

theorem run_eq (r : Registry) (policy : ErrorPolicy) (n : Nat) (j : BodyJob) :
    j.run r policy n = (if j.ret == .unit then discard j.body.asChild.discarded
      else discard <| Infer.check j.body.asChild j.ret : Infer Unit).after (j.context r policy) (j.start n) := by
  have hparams := after_bindParams (j.context r policy) j.params (s := { nextVar := n }) rfl
  have hrun : j.run r policy n = j.check.after (j.context r policy) { nextVar := n } := rfl
  rw [hrun, check, Infer.after_bind, hparams]
  rfl

theorem ready_start (n : Nat) {j : BodyJob} (hp : ∀ p ∈ j.params, good p.ty) (hn : j.body.ids.Nodup) :
    (j.start n).Ready r tested good j.body where
  fits := ⟨holds_bindAll (by simp [Scope.Holds]) hp, by simp [start, Layer.Holds], Layer.matches_empty _, nofun⟩
  records := ⟨nofun, nofun⟩
  nodup := hn
  untouched := .inr fun _ _ => ⟨rfl, rfl⟩

structure Checked (F : Findings) (c : BodyContext) (tested : Path → Prop) (good : Ty → Prop) (j : BodyJob)
    (s : BodyState) (recorded : Ty → Prop := good) : Prop where
  meets : F.Meets c tested good j.scope j.body
  records : s.Records recorded
  returns : j.ret ≠ .unit → (F.account c tested good).Accepts j.body j.ret

theorem checked_run (tested : Path → Prop) {n : Nat} {j : BodyJob}
    (L : BodyClosure (j.context r policy) good) (hF : F.Permits good) (hp : ∀ p ∈ j.params, good p.ty)
    (hn : j.body.ids.Nodup) (ht : ∀ p ∈ j.body.tested, tested p) (hg : ∀ p ∈ j.body.sources, F.Gathers good p)
    (hbody : j.body.Complete ∧ j.body.isPresent = true ∨ good .error)
    (h : F.Follows (j.run r policy n) j.body.ids) :
    j.Checked F (j.context r policy) tested good (j.run r policy n) (Ty.Loose good) := by
  have hsound := Expr.sound tested L j.body ht hbody F hF hg
  rw [run_eq] at h ⊢
  split at h
  · next hunit =>
    have hchecked := hsound none false (j.start n) nofun (ready_start n hp hn) h
    refine ⟨hchecked.meets, ?_, fun hne => absurd (eq_of_beq hunit) hne⟩
    rw [if_pos hunit]
    exact hchecked.records
  · next hunit =>
    obtain ⟨hfollows, hallows⟩ := h.requireAssignable tested good
    have hret : (F.account (j.context r policy) tested good).Suggests (some j.ret) :=
      fun t ht => .inl (Option.some.inj ht ▸ L.types.ret)
    have hchecked := hsound (some j.ret) true (j.start n) hret (ready_start n hp hn) hfollows
    refine ⟨hchecked.meets, ?_, fun _ _ => ⟨_, hchecked.told, hallows⟩⟩
    rw [if_neg hunit]
    exact Infer.records_requireAssignable hchecked.records

end BodyJob

end TypeFlow
