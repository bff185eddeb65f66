import TypeFlow.Infer.Expr

namespace TypeFlow

instance : LawfulMonad Traced :=
  .mk' Traced
    (fun x => by rcases x with ⟨a, steps⟩; exact congrArg (Traced.mk a) (List.append_nil steps))
    (fun _ _ => rfl)
    (fun x _ _ => congrArg (Traced.mk _) (List.append_assoc x.steps _ _))

theorem BodyContext.cases_of_joinArms {c : BodyContext} {ts : List Ty} {x : Option Ty} {t : Ty}
    (h : c.joinArms ts x = .ok t) :
    c.registry.joinAll c.ids ts = .ok t ∨ x = some t ∧ ∀ u ∈ ts, c.registry.assignableIn c.bounds u t = true := by
  unfold joinArms at h
  cases hjoin : c.registry.joinAll c.ids ts with
  | ok u =>
    rw [hjoin] at h
    cases h
    exact .inl rfl
  | error e =>
    rw [hjoin] at h
    cases x with
    | none => cases h
    | some u =>
      have hif : (if ts.all (c.registry.assignableIn c.bounds · u) then .ok u else .error e) = Except.ok t := h
      split at hif
      · next hfits =>
        cases hif
        exact .inr ⟨rfl, List.all_eq_true.mp hfits⟩
      · cases hif

namespace Infer

variable {α β : Type}

@[simp] theorem value_pure (c : BodyContext) (a : α) (s : BodyState) :
    (pure a : Infer α).value c s = a := rfl

@[simp] theorem after_pure (c : BodyContext) (a : α) (s : BodyState) :
    (pure a : Infer α).after c s = s := rfl

@[simp] theorem value_bind (c : BodyContext) (x : Infer α) (f : α → Infer β) (s : BodyState) :
    (x >>= f).value c s = (f (x.value c s)).value c (x.after c s) := rfl

@[simp] theorem after_bind (c : BodyContext) (x : Infer α) (f : α → Infer β) (s : BodyState) :
    (x >>= f).after c s = (f (x.value c s)).after c (x.after c s) := rfl

@[simp] theorem steps_pure (c : BodyContext) (a : α) (s : BodyState) : (pure a : Infer α).steps c s = [] := rfl

@[simp] theorem steps_bind (c : BodyContext) (x : Infer α) (f : α → Infer β) (s : BodyState) :
    (x >>= f).steps c s = x.steps c s ++ (f (x.value c s)).steps c (x.after c s) := rfl

theorem discard_bind (x : Infer α) (f : PUnit → Infer β) : (discard x >>= f) = x >>= fun _ => f ⟨⟩ := by
  simp only [Functor.discard, map_const, Function.comp_apply, map_eq_pure_bind, bind_assoc, pure_bind, Function.const_apply]

theorem after_popBranch (c : BodyContext) {s : BodyState} {l : Layer} {ls : List Layer}
    (h : s.flow.below = l :: ls) : popBranch.after c s = { s with flow := ⟨l, ls⟩ } := by
  obtain ⟨_, ⟨top, below⟩, _⟩ := s
  subst h
  rfl

theorem value_popBranch (c : BodyContext) (s : BodyState) : popBranch.value c s = s.flow.top := by
  obtain ⟨_, ⟨top, below⟩, _⟩ := s
  cases below <;> rfl

theorem run_joinArms (c : BodyContext) (span : Span) (arms : List Ty) (x : Option Ty) :
    (∃ t, c.joinArms arms x = .ok t ∧ ∀ s, (joinArms span arms x).value c s = t ∧
      (joinArms span arms x).after c s = s ∧ (joinArms span arms x).steps c s = []) ∨
    ∃ e, c.joinArms arms x = .error e ∧ ∀ s, (joinArms span arms x).value c s = .error ∧
      (joinArms span arms x).after c s = (report span (.ofJoin e)).after c s ∧
      (joinArms span arms x).steps c s = [] := by
  have hrun (s : BodyState) : ((joinArms span arms x).run c).run s =
      ((joined span (c.joinArms arms x)).run c).run s := rfl
  unfold value after steps
  simp only [hrun]
  cases c.joinArms arms x with
  | ok t => exact .inl ⟨t, rfl, fun s => ⟨rfl, rfl, rfl⟩⟩
  | error e => exact .inr ⟨e, rfl, fun s => ⟨rfl, rfl, rfl⟩⟩

theorem visit_eq (site : Site) (act : Infer Typed) :
    visit site act = (do
      let stopped ← isAborted
      if stopped then return ⟨.error, {}⟩ else do
        let t ← act
        let stopped ← isAborted
        if stopped then return ⟨.error, t.facts⟩ else do
          store site.id t.ty
          return t) := rfl

theorem run_isAborted (c : BodyContext) (s : BodyState) :
    isAborted.after c s = s ∧ isAborted.value c s = s.aborted := ⟨rfl, rfl⟩

theorem run_visit_of_aborted (c : BodyContext) (site : Site) (act : Infer Typed) {s : BodyState}
    (h : s.aborted = true) :
    (visit site act).after c s = s ∧ (visit site act).value c s = ⟨.error, {}⟩ := by
  obtain ⟨hafter, hvalue⟩ := run_isAborted c s
  rw [visit_eq, after_bind, value_bind, hafter, hvalue, if_pos h]
  exact ⟨rfl, rfl⟩

theorem run_visit (c : BodyContext) (site : Site) (act : Infer Typed) {s t : BodyState}
    (hs : s.aborted = false) (ht : t = act.after c s) :
    (visit site act).after c s =
        (if t.aborted then t else { t with types := (site.id, (act.value c s).ty) :: t.types }) ∧
      (visit site act).value c s =
        (if t.aborted then ⟨.error, (act.value c s).facts⟩ else act.value c s) := by
  subst ht
  obtain ⟨hfirst, hbefore⟩ := run_isAborted c s
  obtain ⟨hlast, hbehind⟩ := run_isAborted c (act.after c s)
  rw [visit_eq, after_bind, value_bind, hfirst, hbefore, if_neg (by simp [hs]), after_bind, value_bind,
    after_bind, value_bind, hlast, hbehind]
  split
  · exact ⟨rfl, rfl⟩
  · exact ⟨rfl, rfl⟩

theorem flow_visit (c : BodyContext) (site : Site) (act : Infer Typed) {s : BodyState}
    (h : s.aborted = false) :
    ((visit site act).after c s).flow = (act.after c s).flow ∧
      ((visit site act).after c s).aborted = (act.after c s).aborted := by
  rw [(run_visit c site act h rfl).1]
  split
  · exact ⟨rfl, rfl⟩
  · exact ⟨rfl, rfl⟩

theorem after_requireAssignable (c : BodyContext) (span : Span) (t u : Ty) (s : BodyState) :
    (requireAssignable span t u).after c s =
      if s.aborted || c.registry.assignableIn c.bounds u t then s
      else (report span (.mismatch t u)).after c s := by
  have hrun : (requireAssignable span t u).after c s =
      (if s.aborted || c.registry.assignableIn c.bounds u t then pure ⟨⟩
        else discard (report span (.mismatch t u)) : Infer Unit).after c s := rfl
  rw [hrun]
  split
  · rfl
  · rfl

def inBranch (facts : List FlowFact) (x : Infer α) : Infer (α × Layer) := do
  pushBranch facts
  let a ← x
  let l ← popBranch
  return (a, l)

def inScope (x : Infer α) : Infer α := do
  enterScope
  let a ← x
  leaveScope
  return a

def inLoop (x : Infer α) : Infer α := do
  modify fun s => { s with loopDepth := s.loopDepth + 1 }
  let a ← x
  modify fun s => { s with loopDepth := s.loopDepth - 1 }
  return a

theorem run_inBranch (c : BodyContext) (facts : List FlowFact) (x : Infer α) {s t : BodyState}
    (ht : t = x.after c { s with flow := s.flow.push c.registry facts })
    (hb : t.flow.below = s.flow.top :: s.flow.below) :
    (inBranch facts x).after c s = { t with flow := s.flow } ∧
      (inBranch facts x).value c s =
        (x.value c { s with flow := s.flow.push c.registry facts }, t.flow.top) := by
  have hpush : (pushBranch facts).after c s = { s with flow := s.flow.push c.registry facts } := rfl
  unfold inBranch
  rw [after_bind, value_bind, hpush, after_bind, value_bind, ← ht, after_bind, value_bind,
    value_popBranch, after_popBranch c hb]
  exact ⟨rfl, rfl⟩

def leftScope (σ : Scope) (t : BodyState) : BodyState :=
  { t with
    flow := t.scope.ownNames.foldl (fun f name => f.invalidate ⟨name, []⟩) t.flow
    scope := σ }

theorem below_leftScope (σ : Scope) (t : BodyState) : (leftScope σ t).flow.below = t.flow.below := by
  unfold leftScope
  generalize t.flow = f
  induction t.scope.ownNames generalizing f with
  | nil => rfl
  | cons x xs ih => exact ih (f.invalidate ⟨x, []⟩)

theorem run_inScope (c : BodyContext) (x : Infer α) {s t : BodyState}
    (ht : t = x.after c { s with scope := s.scope.child })
    (ho : t.scope.outer = s.scope.own :: s.scope.outer) :
    (inScope x).after c s = leftScope s.scope t ∧
      (inScope x).value c s = x.value c { s with scope := s.scope.child } := by
  have henter : enterScope.after c s = { s with scope := s.scope.child } := rfl
  have hparent : t.scope.parent?.getD t.scope = s.scope := by
    unfold Scope.parent?
    rw [ho]
    rfl
  have hleave : leaveScope.after c t = leftScope s.scope t := by
    rw [← hparent]
    rfl
  unfold inScope
  rw [after_bind, value_bind, henter, after_bind, value_bind, ← ht, after_bind, value_bind, hleave]
  exact ⟨rfl, rfl⟩

theorem conjunction_eq (left right : Child) :
    conjunction left right = (do
      let l ← condition left
      let r ← inBranch l.whenTrue (condition right)
      return ⟨l.whenTrue ++ r.1.whenTrue, []⟩) := by
  simp only [conjunction, inBranch, discard_bind, bind_assoc, pure_bind]

theorem disjunction_eq (left right : Child) :
    disjunction left right = (do
      let l ← condition left
      let r ← inBranch l.whenFalse (condition right)
      return ⟨[], l.whenFalse ++ r.1.whenFalse⟩) := by
  simp only [disjunction, inBranch, discard_bind, bind_assoc, pure_bind]

theorem cond_eq (span : Span) (test thenBranch elseBranch : Child) (x : Option Ty) (used : Bool) :
    cond span test thenBranch elseBranch x used = (do
      let facts ← condition test
      let t ← inBranch facts.whenTrue (thenBranch.inferIn x used)
      let e ← inBranch facts.whenFalse (elseArm elseBranch x used)
      joinBranches [⟨t.2, t.1.isNever⟩, ⟨e.2, e.1.isNever⟩]
      twoArms span t.1 e.1 elseBranch.expr.isPresent x used) := by
  simp only [cond, inBranch, bind_assoc, pure_bind]

theorem guardBind_eq (span : Span) (binding : String) (value thenBranch elseBranch : Child)
    (x : Option Ty) (used : Bool) :
    guardBind span binding value thenBranch elseBranch x used = (do
      let payload ← guardPayload value (← value.infer none)
      let facts := factsOf (← narrowableChild value) .notNone .isNone
      let t ← inBranch facts.whenTrue <| inScope do
        bindLocal binding payload false
        thenBranch.inferIn x used
      let e ← inBranch facts.whenFalse (elseArm elseBranch x used)
      joinBranches [⟨t.2, t.1.isNever⟩, ⟨e.2, e.1.isNever⟩]
      twoArms span t.1 e.1 elseBranch.expr.isPresent x used) := by
  simp only [guardBind, inBranch, inScope, bind_assoc, pure_bind]

theorem arms_cons (subject : Ty) (path : Option (Path × Ty)) (x : Option Ty) (used : Bool)
    (arm : ArmChild) (rest : List ArmChild) :
    arms subject path x used (arm :: rest) = (do
      let target ← armPattern subject path arm
      let r ← inBranch (armFact path target .is) (arm.body.inferIn x used)
      applyFacts (armFact path target .isNot)
      return (⟨r.2, r.1.isNever⟩, r.1) :: (← arms subject path x used rest)) := by
  simp only [arms, inBranch, bind_assoc, pure_bind]

theorem lastArm_eq (path : Option (Path × Ty)) (branch : Child) (x : Option Ty) (used : Bool) :
    lastArm path branch x used =
      if branch.expr.isPresent then do
        let r ← inBranch [] (branch.inferIn x used)
        return (⟨r.2, r.1.isNever⟩, some r.1)
      else do
        let known ← narrowingOf path
        return (⟨(← get).flow.top, known.any (·.ty.isNever)⟩, none) := by
  simp only [lastArm, inBranch, bind_assoc, pure_bind]

theorem matchOn_eq (span : Span) (scrutinee : Child) (armList : List ArmChild) (elseBranch : Child)
    (x : Option Ty) (used : Bool) :
    matchOn span scrutinee armList elseBranch x used = (do
      let subject ← scrutinee.infer none
      let path ← narrowableChild scrutinee
      let r ← inBranch [] do
        let results ← arms subject path x used armList
        let last ← lastArm path elseBranch x used
        return (results, last)
      let outcomes := r.1.1.map (·.1) ++ [r.1.2.1]
      joinBranches outcomes
      if used then branchType span (r.1.1.map (·.2) ++ r.1.2.2.toList) x used
      else return if outcomes.all (·.terminal) then .never else .unit) := by
  simp only [matchOn, inBranch, bind_assoc, pure_bind]
  rfl

theorem block_eq (body : List StmtChild) (result : Child) (x : Option Ty) (used : Bool) :
    block body result x used = (do
      let r ← inScope do
        let diverges ← stmts body
        let t ← elseArm result x used
        return (diverges, t)
      return if r.1 then .never else r.2) := by
  simp only [block, inScope, bind_assoc, pure_bind]

theorem loop_eq (test body : Child) :
    loop test body = (do
      invalidateAll (body.expr.written (← registry))
      let facts ← condition test
      discard <| inBranch facts.whenTrue <| inLoop body.discarded
      if body.expr.breaks then return .unit
      if test.expr.isPresent then
        applyFacts facts.whenFalse
        return .unit
      else return .never) := by
  simp only [loop, inBranch, inLoop, discard_bind, bind_assoc, pure_bind]

end Infer

namespace BodyState

structure Continues (s t : BodyState) : Prop where
  outer : t.scope.outer = s.scope.outer
  below : t.flow.below = s.flow.below
  loopDepth : t.loopDepth = s.loopDepth
  errors : s.errors <+: t.errors
  aborted : s.aborted = true → t.aborted = true

structure Restores (s t : BodyState) : Prop extends Continues s t where
  scope : t.scope = s.scope

theorem Continues.refl (s : BodyState) : Continues s s :=
  ⟨rfl, rfl, rfl, List.prefix_refl _, id⟩

theorem Continues.trans {s t u : BodyState} (h : Continues s t) (k : Continues t u) :
    Continues s u :=
  ⟨k.outer.trans h.outer, k.below.trans h.below, k.loopDepth.trans h.loopDepth,
    h.errors.trans k.errors, fun a => k.aborted (h.aborted a)⟩

theorem Restores.refl (s : BodyState) : Restores s s := ⟨Continues.refl s, rfl⟩

theorem Restores.trans {s t u : BodyState} (h : Restores s t) (k : Restores t u) :
    Restores s u :=
  ⟨h.toContinues.trans k.toContinues, k.scope.trans h.scope⟩

instance : Std.Refl Continues := ⟨Continues.refl⟩

instance : Trans Continues Continues Continues := ⟨Continues.trans⟩

instance : Std.Refl Restores := ⟨Restores.refl⟩

end BodyState

end TypeFlow
