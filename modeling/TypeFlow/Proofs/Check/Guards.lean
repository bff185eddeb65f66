import TypeFlow.Proofs.Check.Matches
import TypeFlow.Proofs.Infer.Footprints.Beside
import TypeFlow.Proofs.Infer.NormalForm

namespace TypeFlow

namespace Footprint

def all : Footprint := ⟨fun _ => True, fun _ => True, fun _ => True, True, fun _ => True⟩

theorem lawful_all (r : Registry) : all.Lawful r := .of_forall fun _ => True.intro

end Footprint

theorem Expr.treads_all (c : BodyContext) (e : Expr) : e.asChild.Treads c .all :=
  e.treads c ⟨fun _ _ => True.intro, fun _ _ => True.intro, fun _ _ => True.intro, fun _ => True.intro⟩

structure BodyState.SameLog (hidden : List Nat) (s t : BodyState) : Prop where
  errors : s.errors = t.errors
  insts : s.insts = t.insts
  types : ∀ i, i ∉ hidden → s.typeOf i = t.typeOf i

namespace BodyState

variable {hidden : List Nat} {s t u : BodyState}

theorem Beside.sameLog (h : s.Beside hidden t) : s.SameLog hidden t := ⟨h.errors, h.insts, h.types⟩

namespace SameLog

theorem symm (h : s.SameLog hidden t) : t.SameLog hidden s :=
  ⟨h.errors.symm, h.insts.symm, fun i hi => (h.types i hi).symm⟩

theorem trans (h : s.SameLog hidden t) (k : t.SameLog hidden u) : s.SameLog hidden u :=
  ⟨h.errors.trans k.errors, h.insts.trans k.insts, fun i hi => (h.types i hi).trans (k.types i hi)⟩

end SameLog

end BodyState

namespace Infer

open BodyState (Beside SameLog)

variable {c : BodyContext} {hidden : List Nat} {s : BodyState} {α : Type} {x : Infer α}

theorem sameLog_visit {site : Site} (act : Infer Typed) (hi : site.id ∈ hidden) (hs : s.aborted = false) :
    ((visit site act).after c s).SameLog hidden (act.after c s) := by
  rw [(run_visit c site act hs rfl).1]
  split
  · exact ⟨rfl, rfl, fun _ _ => rfl⟩
  · exact ⟨rfl, rfl, fun j hj => BodyState.typeOf_store _ _ fun heq : j = site.id => hj (heq ▸ hi)⟩

theorem sameLog_inScope (hx : Inside c .all x) (s : BodyState) :
    ((inScope x).after c s).SameLog hidden (x.after c { s with scope := s.scope.child }) := by
  obtain ⟨hmoves, -⟩ := hx.runs (Footprint.lawful_all _) { s with scope := s.scope.child } True.intro
  rw [(run_inScope c x rfl hmoves.outer).1]
  exact ⟨rfl, rfl, fun _ _ => rfl⟩

theorem sameLog_inBranch (hx : Inside c .all x) (fs : List FlowFact) (s : BodyState) :
    ((inBranch fs x).after c s).SameLog hidden (x.after c { s with flow := s.flow.push c.registry fs }) := by
  obtain ⟨hmoves, -⟩ := hx.runs (Footprint.lawful_all _) { s with flow := s.flow.push c.registry fs } True.intro
  rw [(run_inBranch c fs x rfl hmoves.below).1]
  exact ⟨rfl, rfl, fun _ _ => rfl⟩

def guardClause (test thenBranch : Expr) : Infer (Facts × Ty × Layer) := do
  let facts ← condition test.asChild
  let first ← inBranch facts.whenTrue thenBranch.asChild.discarded
  return (facts, first)

def blockBody (statements : List StmtChild) (result : Child) : Infer (Bool × Ty) := do
  let diverges ← stmts statements
  let t ← elseArm result none false
  return (diverges, t)

theorem treads_guardClause (test thenBranch : Expr) : Inside c .all (guardClause test thenBranch) := by
  refine (treads_condition (test.treads_all c)).bind fun facts hfacts => ?_
  exact (Treads.inBranch hfacts.whenTrue (treads_inferIn (thenBranch.treads_all c) _ _)).andThen fun _ => .done _

theorem treads_blockBody (ss : List Stmt) (result : Expr) : Inside c .all (blockBody (Stmt.asChildren ss) result.asChild) := by
  have hss : ∀ st ∈ Stmt.asChildren ss, st.Treads c .all :=
    treads_statements (fun e _ => e.treads_all c) (fun _ _ => True.intro) fun _ _ => True.intro
  exact (treads_stmts hss).andThen fun _ => (treads_elseArm (result.treads_all c) _ _).andThen fun _ => .done _

theorem running_of_infer_never {e : Expr} {x : Option Ty} {used : Bool}
    (h : ((e.infer x used).value c s).ty = .never) : ((e.infer x used).after c s).aborted = false := by
  cases e
  case missing => cases h
  case neg site e => cases e <;> exact ((visit_eq_never_iff site _ s).mp h).1
  case binary site op l r => cases op <;> exact ((visit_eq_never_iff site _ s).mp h).1
  all_goals exact ((visit_eq_never_iff _ _ s).mp h).1

theorem running_of_guard_never {test thenBranch : Expr}
    (h : ((guardClause test thenBranch).value c s).2.1 = .never) :
    s.aborted = false ∧ ((guardClause test thenBranch).after c s).aborted = false := by
  let opened := (condition test.asChild).after c s
  let pushed := { opened with flow := opened.flow.push c.registry ((condition test.asChild).value c s).whenTrue }
  have hrestores := thenBranch.restores_infer c none false pushed
  have hnever : ((thenBranch.infer none false).value c pushed).ty = .never := h
  have hrun := running_of_infer_never hnever
  have hguard : (guardClause test thenBranch).after c s =
      { (thenBranch.infer none false).after c pushed with flow := opened.flow } :=
    (run_inBranch c _ thenBranch.asChild.discarded rfl hrestores.below).1
  refine ⟨Bool.eq_false_iff.mpr fun hs => ?_, hguard ▸ hrun⟩
  have hopened : opened.aborted = true := ((idle_condition test s hs).2 ▸ hs :)
  exact Bool.false_ne_true (hrun.symm.trans (hrestores.aborted hopened))

theorem after_twoArms_discarded (span : Span) (t u : Ty) (hasElse : Bool) (x : Option Ty) (s : BodyState) :
    (twoArms span t u hasElse x false).after c s = s := by
  unfold twoArms
  split <;> rfl

theorem cond_eq_guardClause (span : Span) (test thenBranch : Expr) (elseBranch : Child) :
    cond span test.asChild thenBranch.asChild elseBranch none false = (do
      let g ← guardClause test thenBranch
      let second ← inBranch g.1.whenFalse (elseArm elseBranch none false)
      joinBranches [⟨g.2.2, g.2.1.isNever⟩, ⟨second.2, second.1.isNever⟩]
      twoArms span g.2.1 second.1 elseBranch.expr.isPresent none false) := by
  simp only [cond_eq, guardClause, Child.discarded, bind_assoc, pure_bind]

theorem after_cond_guard (span : Span) {test thenBranch : Expr}
    (h : ((guardClause test thenBranch).value c s).2.1 = .never) :
    (cond span test.asChild thenBranch.asChild Expr.missing.asChild none false).after c s =
      (applyFacts ((guardClause test thenBranch).value c s).1.whenFalse).after c
        ((guardClause test thenBranch).after c s) := by
  rw [cond_eq_guardClause, after_bind]
  generalize (guardClause test thenBranch).after c s = opened
  generalize (guardClause test thenBranch).value c s = g at h
  obtain ⟨facts, t, l⟩ := g
  obtain rfl : t = .never := h
  rfl

theorem beside_behind_guard (site : Site) (test thenBranch : Expr) (hi : site.id ∈ hidden)
    (h : ((guardClause test thenBranch).value c s).2.1 = .never) :
    (((Expr.cond site test thenBranch .missing).infer none false).after c { s with scope := s.scope.child }).Beside
      hidden (enterScope.after c ((pushBranch ((guardClause test thenBranch).value c s).1.whenFalse).after c
        ((guardClause test thenBranch).after c s))) := by
  let inside : BodyState := { s with scope := s.scope.child }
  let clause := guardClause test thenBranch
  let facts := (clause.value c s).1
  have hinside : inside.Beside hidden s := ⟨⟨fun _ => rfl, rfl, rfl⟩, rfl, rfl, rfl, rfl, fun _ _ => rfl⟩
  obtain ⟨hvalue, hafter, -⟩ :=
    (treads_guardClause test thenBranch).abreast (Footprint.lawful_all c.registry) inside s True.intro hinside
  obtain ⟨hs, hrunning⟩ := running_of_guard_never h
  have hact : (cond site.span test.asChild thenBranch.asChild Expr.missing.asChild none false).after c inside =
      (applyFacts facts.whenFalse).after c (clause.after c inside) := by
    rw [after_cond_guard site.span (hvalue ▸ h), hvalue]
  have hlayer : ((clause.after c inside).flow.apply c.registry facts.whenFalse).top =
      ((clause.after c s).flow.push c.registry facts.whenFalse).top :=
    congrArg (Layer.applyAll c.registry · facts.whenFalse) hafter.layer
  have hrun : ((Expr.cond site test thenBranch .missing).infer none false).after c inside = _ :=
    (run_visit c site (plain _) (s := inside) hs hact.symm).1
  have hbeside : ((applyFacts facts.whenFalse).after c (clause.after c inside)).Beside hidden
      (enterScope.after c ((pushBranch facts.whenFalse).after c (clause.after c s))) :=
    { hafter with scope := hafter.scope, layer := hlayer }
  rw [hrun, if_neg (Bool.eq_false_iff.mp (hbeside.aborted.trans hrunning))]
  exact hbeside.hide hi _

theorem sameLog_block {site : Site} (ss : List Stmt) (result : Expr) (hi : site.id ∈ hidden)
    (hs : s.aborted = false) : (((Expr.block site ss result).infer none false).after c s).SameLog hidden
      ((blockBody (Stmt.asChildren ss) result.asChild).after c { s with scope := s.scope.child }) := by
  refine (sameLog_visit _ hi hs).trans ?_
  show ((block (Stmt.asChildren ss) result.asChild none false).after c s).SameLog hidden _
  rw [block_eq]
  exact sameLog_inScope (treads_blockBody ss result) s

theorem after_blockBody_cons (span : Span) {e : Expr} (ss : List Stmt) (result : Child)
    (h : ((e.infer none false).after c s).aborted = false) :
    (blockBody (Stmt.asChildren (.expr span e :: ss)) result).after c s =
      (blockBody (Stmt.asChildren ss) result).after c ((e.infer none false).after c s) := by
  have hrun : (blockBody (Stmt.asChildren (.expr span e :: ss)) result).after c s =
      (elseArm result none false).after c
        ((if ((e.infer none false).after c s).aborted then pure ((e.infer none false).value c s).ty.isNever
          else do return (← stmts (Stmt.asChildren ss)) || ((e.infer none false).value c s).ty.isNever : Infer Bool).after
            c ((e.infer none false).after c s)) := rfl
  rw [hrun, h]
  rfl

theorem sameLog_cond_else (site : Site) (test thenBranch elseBranch : Expr) (hi : site.id ∈ hidden)
    (hs : s.aborted = false) (he : elseBranch.isPresent = true) :
    (((Expr.cond site test thenBranch elseBranch).infer none false).after c s).SameLog hidden
      ((elseBranch.infer none false).after c
        ((pushBranch ((guardClause test thenBranch).value c s).1.whenFalse).after c
          ((guardClause test thenBranch).after c s))) := by
  refine (sameLog_visit _ hi hs).trans ?_
  have helse : elseArm elseBranch.asChild none false = elseBranch.asChild.discarded := if_pos he
  show ((cond site.span test.asChild thenBranch.asChild elseBranch.asChild none false).after c s).SameLog hidden _
  rw [cond_eq_guardClause, after_bind, helse]
  generalize (guardClause test thenBranch).after c s = opened
  generalize (guardClause test thenBranch).value c s = g
  have harm : ((inBranch g.1.whenFalse elseBranch.asChild.discarded).after c opened).SameLog hidden _ :=
    sameLog_inBranch (treads_inferIn (elseBranch.treads_all c) none false) g.1.whenFalse opened
  simp only [after_bind, after_twoArms_discarded]
  exact ⟨harm.errors, harm.insts, harm.types⟩

end Infer

open Infer
open BodyState (SameLog)

-- A guard in front of statements reports and records what its `else` form does.
theorem Expr.guard_eq_else (ctx : BodyContext) (s : BodyState) (c d : Expr) (r : List Stmt) (result : Expr)
    (span : Span) (outer test nested branching : Site)
    (h : ((guardClause c d).value ctx s).2.1 = .never) :
    SameLog [outer.id, test.id, nested.id, branching.id]
      (((Expr.block outer (.expr span (.cond test c d .missing) :: r) result).infer none false).after ctx s)
      (((Expr.cond branching c d (.block nested r result)).infer none false).after ctx s) := by
  let hidden := [outer.id, test.id, nested.id, branching.id]
  let entered := (pushBranch ((guardClause c d).value ctx s).1.whenFalse).after ctx
    ((guardClause c d).after ctx s)
  obtain ⟨hs, hrunning⟩ := running_of_guard_never h
  have hbehind := beside_behind_guard test c d (by simp [hidden] : test.id ∈ hidden) h
  have hrest := ((treads_blockBody r result).abreast (Footprint.lawful_all ctx.registry) _ _ True.intro hbehind).2.1
  have hblock := sameLog_block (c := ctx) (.expr span (.cond test c d .missing) :: r) result
    (by simp [hidden] : outer.id ∈ hidden) hs
  rw [after_blockBody_cons span r result.asChild (hbehind.aborted.trans hrunning)] at hblock
  have hnested := sameLog_block (c := ctx) (s := entered) r result (by simp [hidden] : nested.id ∈ hidden) hrunning
  have helse := sameLog_cond_else (c := ctx) branching c d (.block nested r result)
    (by simp [hidden] : branching.id ∈ hidden) hs rfl
  exact hblock.trans (hrest.sameLog.trans (helse.trans hnested).symm)

-- `if x is i64 { return }; x`, where `x` is an `i32` or an `i64`.
theorem Expr.guard_eq_else_return :
    let x (i : Nat) : Expr := .ident ⟨i, {}⟩ "x"
    let c : Expr := .isTest ⟨1, {}⟩ (x 0) (.named "i64" []) false
    let d : Expr := .ret ⟨2, {}⟩ .missing
    let rest : List Stmt := [.expr {} (x 3)]
    let clause := (Expr.block ⟨4, {}⟩ (.expr {} (.cond ⟨5, {}⟩ c d .missing) :: rest) .missing).infer none false
    let branching := (Expr.cond ⟨6, {}⟩ c d (.block ⟨7, {}⟩ rest .missing)).infer none false
    ((guardClause c d).value {} halfState).2.1 = .never ∧
      (clause.after {} halfState).errors = (branching.after {} halfState).errors ∧
      (clause.after {} halfState).typeOf 3 = some (.prim .i32) ∧
      (branching.after {} halfState).typeOf 3 = some (.prim .i32) := by
  intro x c d rest clause branching
  have hnever : ((guardClause c d).value {} halfState).2.1 = .never := rfl
  have hlog : SameLog [4, 5, 7, 6] (clause.after {} halfState) (branching.after {} halfState) :=
    Expr.guard_eq_else {} halfState c d rest .missing {} ⟨4, {}⟩ ⟨5, {}⟩ ⟨7, {}⟩ ⟨6, {}⟩ hnever
  have htype : (clause.after {} halfState).typeOf 3 = some (.prim .i32) := by decide +kernel
  exact ⟨hnever, hlog.errors, htype, (hlog.types 3 (by decide)).symm.trans htype⟩

end TypeFlow
