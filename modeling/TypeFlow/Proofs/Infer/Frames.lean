import TypeFlow.Proofs.Infer.Recorded
import TypeFlow.Proofs.Infer.Rules.Nodes

namespace TypeFlow

variable {c : BodyContext}

namespace BodyState

structure Writes (c : BodyContext) (is : List Nat) (s t : BodyState) : Prop extends Continues s t where
  typeOf : ∀ i, i ∉ is → t.typeOf i = s.typeOf i
  instOf : ∀ i, i ∉ is → t.instOf i = s.instOf i
  stops : t.aborted = s.aborted ∨ c.policy = .abort ∧ s.errors.length < t.errors.length

namespace Writes

variable {is js : List Nat} {s t u : BodyState}

theorem refl (is : List Nat) (s : BodyState) : Writes c is s s :=
  ⟨.refl s, fun _ _ => rfl, fun _ _ => rfl, .inl rfl⟩

theorem trans (h : Writes c is s t) (k : Writes c is t u) : Writes c is s u := by
  refine ⟨h.toContinues.trans k.toContinues, fun i hi => (k.typeOf i hi).trans (h.typeOf i hi),
    fun i hi => (k.instOf i hi).trans (h.instOf i hi), ?_⟩
  have hst := h.errors.length_le
  have htu := k.errors.length_le
  rcases h.stops with h | ⟨hp, h⟩
  · rcases k.stops with k | ⟨hp, k⟩
    · exact .inl (k.trans h)
    · exact .inr ⟨hp, by omega⟩
  · exact .inr ⟨hp, by omega⟩

theorem mono (h : Writes c is s t) (hsub : is ⊆ js) : Writes c js s t :=
  ⟨h.toContinues, fun i hi => h.typeOf i fun k => hi (hsub k),
    fun i hi => h.instOf i fun k => hi (hsub k), h.stops⟩

theorem running (h : Writes c is s t) (ht : t.aborted = false) : s.aborted = false := by
  rw [← Bool.not_eq_true] at ht ⊢
  exact fun hs => ht (h.aborted hs)

end Writes

theorem typeOf_store (s : BodyState) (t : Ty) {i j : Nat} (h : i ≠ j) :
    typeOf { s with types := (j, t) :: s.types } i = s.typeOf i := by
  simp [typeOf, List.lookup_cons, beq_false_of_ne h]

theorem instOf_record (s : BodyState) (inst : Instantiation) {i j : Nat} (h : i ≠ j) :
    instOf { s with insts := (j, inst) :: s.insts } i = s.instOf i := by
  simp [instOf, List.lookup_cons, beq_false_of_ne h]

theorem writes_store (s : BodyState) (i : Nat) (t : Ty) :
    Writes c [i] s { s with types := (i, t) :: s.types } :=
  ⟨⟨rfl, rfl, rfl, List.prefix_refl _, id⟩,
    fun _ h => typeOf_store s t (List.ne_of_not_mem_cons h), fun _ _ => rfl, .inl rfl⟩

theorem writes_record (s : BodyState) (i : Nat) (inst : Instantiation) :
    Writes c [i] s { s with insts := (i, inst) :: s.insts } :=
  ⟨⟨rfl, rfl, rfl, List.prefix_refl _, id⟩, fun _ _ => rfl,
    fun _ h => instOf_record s inst (List.ne_of_not_mem_cons h), .inl rfl⟩

theorem writes_report (s : BodyState) (span : Span) (cause : Cause) :
    Writes c [] s ((Infer.report span cause).after c s) := by
  have hafter : (Infer.report span cause).after c s =
      { s with errors := s.errors ++ [⟨span, cause⟩], aborted := s.aborted || c.policy == .abort } := rfl
  rw [hafter]
  refine ⟨⟨rfl, rfl, rfl, List.prefix_append _ _, fun h => by simp [h]⟩, fun _ _ => rfl,
    fun _ _ => rfl, ?_⟩
  cases hp : c.policy with
  | recover => exact .inl (by simp)
  | abort => exact .inr ⟨rfl, by simp⟩

end BodyState

open BodyState (Writes)

def Child.Confined (c : BodyContext) (ch : Child) : Prop :=
  ∀ x used s, Writes c ch.expr.ids s ((ch.run x used).after c s) ∧
    ((ch.run x used).after c s).scope = s.scope

def Turn.ids (us : List Turn) : List Nat := us.flatMap (·.expr.ids)

theorem Turn.mem_ids {us : List Turn} {i : Nat} : i ∈ ids us ↔ ∃ u ∈ us, i ∈ u.expr.ids :=
  List.mem_flatMap

theorem Turn.Covers.ids_subset {us vs : List Turn} (h : Turn.Covers us vs) : Turn.ids us ⊆ Turn.ids vs := by
  intro i hi
  obtain ⟨u, hu, hi⟩ := Turn.mem_ids.mp hi
  rcases h.mem u hu with hv | ⟨-, v, hv, heq⟩
  · exact Turn.mem_ids.mpr ⟨u, hv, hi⟩
  · exact Turn.mem_ids.mpr ⟨v, hv, heq ▸ hi⟩

namespace Plan

variable {T : Theory c} {α : Type} {A : Prop} {g : Spot} {us : List Turn} {x : Infer α}
  {Q : α → Spot → Prop}

theorem writes (hruns : ∀ ch, T.runs ch → ch.Confined c) (h : Plan T A g us x Q) (s : BodyState) :
    Writes c (g.own :: Turn.ids us) s (x.after c s) := by
  induction h generalizing s with
  | pure | look => exact .refl _ s
  | @bind _ _ _ g us vs x f _ _ _ _ hx hf =>
    have hids : Turn.ids (us ++ vs) = Turn.ids us ++ Turn.ids vs := List.flatMap_append
    rw [hids]
    refine ((hx s).mono ?_).trans ((hf (x.value c s) g rfl (x.after c s)).mono ?_)
    · exact List.cons_subset_cons _ (List.subset_append_left _ _)
    · exact List.cons_subset_cons _ (List.subset_append_right _ _)
  | mono _ hv ho _ _ hx =>
    rw [ho]
    exact (hx s).mono (List.cons_subset_cons _ hv.ids_subset)
  | read _ _ hf => exact hf s
  | report span cause => exact (BodyState.writes_report s span cause).mono (List.nil_subset _)
  | amend ha =>
    rw [Infer.after_amend ha]
    exact ⟨⟨rfl, rfl, rfl, List.prefix_refl _, id⟩, fun _ _ => rfl, fun _ _ => rfl, .inl rfl⟩
  | readLocal | control | bindLocal | solve =>
    exact ⟨⟨rfl, rfl, rfl, List.prefix_refl _, id⟩, fun _ _ => rfl, fun _ _ => rfl, .inl rfl⟩
  | joinArms span arms x =>
    rcases Infer.run_joinArms c span arms x with ⟨t, -, hrun⟩ | ⟨e, -, hrun⟩
    · exact (hrun s).2.1.symm ▸ .refl _ s
    · exact (hrun s).2.1.symm ▸ (BodyState.writes_report s span _).mono (List.nil_subset _)
  | @inBranch _ _ _ _ _ _ fs _ _ hx =>
    have h := hx { s with flow := s.flow.push c.registry fs }
    rw [(Infer.run_inBranch c _ _ rfl h.below).1]
    exact ⟨⟨h.outer, rfl, h.loopDepth, h.errors, h.aborted⟩, h.typeOf, h.instOf, h.stops⟩
  | inScope _ hx =>
    have h := hx { s with scope := s.scope.child }
    rw [(Infer.run_inScope c _ rfl h.outer).1]
    refine ⟨⟨rfl, ?_, h.loopDepth, h.errors, h.aborted⟩, h.typeOf, h.instOf, h.stops⟩
    exact (Infer.below_leftScope _ _).trans h.below
  | inLoop _ hx =>
    have h := hx { s with loopDepth := s.loopDepth + 1 }
    have hdepth := congrArg (· - 1) h.loopDepth
    exact ⟨⟨h.outer, h.below, hdepth, h.errors, h.aborted⟩, h.typeOf, h.instOf, h.stops⟩
  | child used hc => exact ((hruns _ hc _ used s).1).mono (by simp [Turn.ids])
  | draft hc => exact ((hruns _ hc _ true s).1).mono (by simp [Turn.ids])
  | note => exact (BodyState.writes_store s _ _).mono (by simp [Turn.ids, Expr.ids])
  | recordInst ho => exact (BodyState.writes_record s _ _).mono (by simp [ho])

end Plan

def Theory.confined (c : BodyContext) : Theory c where
  good _ := True
  about _ := True
  views _ _ := True
  bound _ _ _ := True
  reads _ _ _ := True
  fits _ _ := True
  final := False
  typeOf _ := none
  reported _ := True
  stopped := True
  runs := Child.Confined c
  pattern _ := True
  laws := .trivial c
  source _ _ _ := True.intro
  settled := False.elim
  error _ := True.intro
  variadic _ _ _ := True.intro
  callee _ _ := True.intro
  field _ _ := True.intro
  wildcard := True.intro
  unseen _ := True.intro
  test _ _ := True.intro
  root _ := True.intro
  through _ _ _ := True.intro
  declared _ := True.intro
  narrowed _ _ := True.intro
  member _ _ := True.intro
  lookup _ _ := True.intro
  entry _ _ := True.intro
  apply _ _ := True.intro
  merge _ _ := True.intro
  invalidate _ _ := True.intro

theorem Turn.ids_partsIn (types : Expr → Option Ty) (σ : Scope) (e : Expr) :
    Turn.ids ((c.partsIn types σ e).map Turn.of) = e.parts.flatMap Expr.ids := by
  rw [← c.map_snd_partsIn types σ e, Turn.ids, List.flatMap_map, List.flatMap_map]
  rfl

theorem Infer.writes_visit {site : Site} {act : Infer Typed} {is : List Nat} {s : BodyState}
    (h : Writes c (site.id :: is) s (act.after c s)) :
    Writes c (site.id :: is) s ((visit site act).after c s) := by
  cases hs : s.aborted with
  | true =>
    rw [(run_visit_of_aborted c site act hs).1]
    exact .refl _ s
  | false =>
    rw [(run_visit c site act hs rfl).1]
    split
    · exact h
    · exact h.trans ((BodyState.writes_store _ site.id _).mono (by simp))

theorem Expr.restores_infer (c : BodyContext) (e : Expr) (x : Option Ty) (used : Bool) (s : BodyState) :
    s.Restores ((e.infer x used).after c s) := by
  let V := (TypeLaws.trivial c).recorded True.intro
  have hchecks : V.Checks e.asChild := BodyInvariant.checks e (fun _ _ => True.intro) fun _ _ => True.intro
  refine (hchecks x used (fun _ _ => True.intro) s ?_).2.1
  exact ⟨fun _ _ _ _ => True.intro, fun _ _ _ _ => ⟨True.intro, True.intro⟩, fun _ _ => True.intro,
    fun _ _ _ _ => True.intro⟩

theorem Expr.confined (c : BodyContext) (e : Expr) : e.asChild.Confined c := by
  refine Expr.runs_of_plans (T := .confined c) (fun _ => True.intro) (fun _ => True.intro) (fun _ => True.intro)
    (fun _ _ _ => .inl True.intro) (fun _ _ s => ⟨.refl _ s, rfl⟩) (fun e site hsite hplans x used s => ?_) e
  obtain ⟨act, Q, hrun, hplan⟩ := hplans x used s.scope
  have hact := hplan.writes (fun _ h => h) s
  rw [Turn.ids_partsIn] at hact
  refine ⟨?_, (e.restores_infer c x used s).scope⟩
  rw [hrun]
  refine (Infer.writes_visit hact).mono ?_
  rw [Expr.asChild, Expr.ids_eq, hsite]
  exact List.cons_subset.mpr ⟨by simp, List.subset_append_left _ _⟩

end TypeFlow
