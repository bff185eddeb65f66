import TypeFlow.Proofs.Infer.Courses.Values
import TypeFlow.Proofs.Infer.Rules.Statements

namespace TypeFlow

def PatternChild.exprs : PatternChild → List Expr
  | .type _ => []
  | .value ch => [ch.expr]

def PatternChild.places (span : Span) : PatternChild → List Span
  | .type _ => [span]
  | .value _ => []

def ArmChild.exprs (a : ArmChild) : List Expr := a.pattern.exprs ++ [a.body.expr]

def ArmChild.places (a : ArmChild) : List Span := a.pattern.places a.span

structure ArmChild.Runs (c : BodyContext) (I : List Span → Prop) (a : ArmChild) : Prop where
  pattern : ∀ ch, a.pattern = .value ch → ch.Runs c I
  body : a.body.Runs c I

theorem Registry.joinAll_error (r : Registry) (ids : Ty → Nat) (t : Ty) : ∃ u, r.joinAll ids [t, .error] = .ok u := by
  have hfirst : ∃ u, r.join ids .never t = .ok u := by
    unfold join
    split
    · exact ⟨_, rfl⟩
    · split
      · exact ⟨_, rfl⟩
      · exact ⟨t, rfl⟩
  obtain ⟨u, hu⟩ := hfirst
  have hlast : r.join ids u .error = .ok .error := if_pos (Bool.or_true _)
  refine ⟨.error, ?_⟩
  simp only [joinAll, List.foldlM_cons, List.foldlM_nil, hu, bind_pure]
  exact hlast

namespace Infer

variable {c : BodyContext} {I : List Span → Prop} {A : Prop} {L : List Span} {u v w : Child} {arm : ArmChild}
  {as : List ArmChild} {x : Option Ty}

theorem course_joinArms {ts : List Ty} (span : Span) (x : Option Ty)
    (h : A → (∀ (r : Registry) ids, ∃ t, r.joinAll ids ts = .ok t) ∨ [span].Sublist L) :
    Course c I A L [] (joinArms span ts x) fun _ => True := by
  refine .read (f := fun d => joined span (d.joinArms ts x)) ?_
  cases hjoin : c.joinArms ts x with
  | ok t => exact (Course.done _).within (List.nil_sublist L) (List.Subset.refl _)
  | error e =>
    refine (course_report span _ fun hA => (h hA).resolve_left fun hok => ?_).trivial
    obtain ⟨t, ht⟩ := hok c.registry c.ids
    rw [BodyContext.joinArms, ht] at hjoin
    cases hjoin

theorem course_branchType {ts : List Ty} {span : Span} (used : Bool)
    (h : A → (∀ (r : Registry) ids, ∃ t, r.joinAll ids ts = .ok t) ∨ [span].Sublist L) :
    Course c I A L [] (branchType span ts x used) fun _ => True :=
  .ite (fun _ => course_joinArms span x h) fun _ =>
    (Course.done _).within (List.nil_sublist L) (List.Subset.refl _)

theorem course_elseArm (used : Bool) (h : u.Runs c I) :
    Course c I A [] [u.expr] (elseArm u x used) fun t => u.expr.isPresent = true → t = .error := by
  refine .ite (fun _ => ?_) fun hmissing => ?_
  · exact (course_inferIn h x used).imp fun _ ht _ => ht
  · exact (Course.pure fun _ hp => absurd hp hmissing).missing hmissing

theorem course_twoArms (span : Span) (t : Ty) {t' : Ty} {hasElse : Bool} (used : Bool)
    (h : A → hasElse = true → t' = .error) :
    Course c I A [] [] (twoArms span t t' hasElse x used) fun _ => True := by
  refine .ite (fun helse => ?_) fun _ => .done _
  refine course_branchType used fun hA => .inl fun r ids => ?_
  rw [h hA helse]
  exact r.joinAll_error ids t

theorem course_secondArm (span : Span) (t : Ty × Layer) (fs : List FlowFact) (used : Bool) (h : u.Runs c I) :
    Course c I A [] [u.expr] (do
      let e ← inBranch fs (elseArm u x used)
      joinBranches [⟨t.2, t.1.isNever⟩, ⟨e.2, e.1.isNever⟩]
      twoArms span t.1 e.1 u.expr.isPresent x used) fun _ => True :=
  ((course_elseArm used h).inBranch fs).andThen fun _ => .after (quiet_perform (.join _)) fun _ =>
    course_twoArms span t.1 used id

theorem course_cond (span : Span) (used : Bool) (h₁ : u.Runs c I) (h₂ : v.Runs c I) (h₃ : w.Runs c I) :
    Course c I False [] [u.expr, v.expr, w.expr] (cond span u v w x used) fun _ => True := by
  rw [cond_eq]
  refine (course_condition h₁).bind fun facts => ?_
  exact ((course_inferIn h₂ x used).inBranch _).bind fun t => course_secondArm span t _ used h₃

theorem course_guardBind (span : Span) (name : String) (used : Bool) (h₁ : u.Runs c I) (h₂ : v.Runs c I)
    (h₃ : w.Runs c I) :
    Course c I False [] [u.expr, v.expr, w.expr] (guardBind span name u v w x used) fun _ => True := by
  have hpayload (t : Ty) : Course c I (t = .error) [] [] (guardPayload u t) fun _ => True := by
    unfold guardPayload
    split
    · exact .done _
    · exact .done _
    · next hne => exact (course_error _ _).assuming hne
  have hguarded (payload : Ty) : Course c I True [] [v.expr] (inScope do
      bindLocal name payload false
      v.inferIn x used) fun _ => True :=
    (Course.after (quiet_bindLocal _ _ _) fun _ => (course_inferIn h₂ x used).trivial).inScope
  rw [guardBind_eq]
  refine (course_infer h₁ none).bind fun t => (hpayload t).bind fun payload => ?_
  refine .after (quiet_narrowable _) fun path => ?_
  exact ((hguarded payload).inBranch _).bind fun t => course_secondArm span t _ used h₃

theorem course_armPattern (t : Ty) (path : Option (Path × Ty)) (h : arm.Runs c I) :
    Course c I A arm.places arm.pattern.exprs (armPattern t path arm) fun _ => True := by
  obtain ⟨pattern, body, span⟩ := arm
  unfold armPattern
  cases pattern with
  | value ch =>
    refine course_operand (h.pattern ch rfl) _ ?_ fun u _ => ?_
    · exact .after (quiet_assignable _ _) fun _ => .after (quiet_assignable _ _) fun _ => .done _
    · refine .after (quiet_assignable _ _) fun _ => .after (quiet_assignable _ _) fun _ => ?_
      exact .ite (fun _ => .done _) fun _ => (course_fault _ _ False.elim).returns _
  | type w =>
    have htest {B : Prop} {L : List Span} {u : Ty} (hB : B → (t = .error ∨ u = .error) ∨ [span].Sublist L) :
        Course c I B L [] (do return if ← typeTest t path u span then some u else none) fun _ => True :=
      (course_typeTest path hB).returns _
    refine course_resolveType w span (fun u => htest fun _ => .inr (.refl _)) fun cause => ?_
    exact (course_report span cause fun _ => .refl _).andThen fun u => htest fun hu => .inl (.inr hu)

theorem course_arms (t : Ty) (path : Option (Path × Ty)) (used : Bool) (h : ∀ a ∈ as, a.Runs c I) :
    Course c I A (as.flatMap (·.places)) (as.flatMap (·.exprs)) (arms t path x used as) fun _ => True := by
  induction as generalizing A with
  | nil => exact .done _
  | cons a as ih =>
    obtain ⟨ha, has⟩ := List.forall_mem_cons.mp h
    rw [arms_cons, List.flatMap_cons, List.flatMap_cons, ArmChild.exprs, List.append_assoc]
    refine (course_armPattern t path ha).bind fun target => ?_
    refine ((course_inferIn ha.body x used).inBranch _).bind fun r => ?_
    exact .after (quiet_perform (.apply _)) fun _ => (ih has).returns _

theorem course_lastArm (path : Option (Path × Ty)) (used : Bool) (h : u.Runs c I) :
    Course c I A [] [u.expr] (lastArm path u x used) fun _ => True := by
  have hread : Quiet c (get : Infer BodyState) := fun _ => ⟨rfl, rfl, rfl⟩
  rw [lastArm_eq]
  refine .ite (fun _ => ((course_inferIn h x used).inBranch _).returns _) fun hmissing => ?_
  refine Course.missing ?_ hmissing
  exact .after (quiet_narrowingOf path) fun _ => .after hread fun _ => .done _

theorem course_matchOn (span : Span) (used : Bool) (h₁ : u.Runs c I) (h₂ : ∀ a ∈ as, a.Runs c I)
    (h₃ : w.Runs c I) :
    Course c I False (as.flatMap (·.places) ++ [span]) (u.expr :: (as.flatMap (·.exprs) ++ [w.expr]))
      (matchOn span u as w x used) fun _ => True := by
  rw [matchOn_eq]
  refine (course_infer h₁ none).bind fun t => .after (quiet_narrowable _) fun path => ?_
  have harms : Course c I (t = .error) (as.flatMap (·.places)) (as.flatMap (·.exprs) ++ [w.expr]) (do
      let results ← arms t path x used as
      let last ← lastArm path w x used
      return (results, last)) fun _ => True :=
    ((course_arms t path used h₂).bind fun _ => (course_lastArm path used h₃).returns _).within
      (by simp) (List.Subset.refl _)
  refine Course.within (F := as.flatMap (·.exprs) ++ [w.expr]) ((harms.inBranch []).bind (M := [span])
    (F := []) fun r => .after (quiet_perform (.join _)) fun _ => .ite (fun _ => ?_) fun _ => ?_)
    (.refl _) (by simp)
  · exact course_branchType used fun _ => .inr (.refl _)
  · exact (Course.done _).within (List.nil_sublist _) (List.Subset.refl _)

theorem course_bindStmt (span : Span) (name : String) (m : Bool) (ty : Option Written) (h : u.Runs c I) :
    Course c I False [] [u.expr] (bindStmt span name m ty u) fun _ => True := by
  have hbind {B : Prop} {E : List Expr} {y : Infer Ty} {Q : Ty → Prop} (hy : Course c I B [] E y Q) (d : Ty) :
      Course c I B [] E (do
        let t ← y
        bindLocal name d m
        return if t.isNever then Ty.never else Ty.unit) fun _ => True :=
    hy.andThen fun t => .after (quiet_bindLocal _ _ _) fun _ => .done _
  cases ty with
  | some w =>
    refine course_resolveType w span (fun d => ?_) fun cause => ?_
    · exact .ite (fun _ => hbind (course_infer h none) d) fun _ => hbind (course_check h d) d
    · refine (course_report (L := []) span cause False.elim).bind (M := []) fun d => ?_
      exact .ite (fun _ => hbind (course_infer h none) d) fun _ => hbind (course_check h d) d
  | none =>
    refine (course_infer h none).bind fun t => ?_
    have hdeclared {y : Infer Ty} (hy : Course c I (t = .error) [] [] y fun _ => True) :
        Course c I (t = .error) [] [] (do
          bindLocal name (← y) m
          return if t.isNever then Ty.never else Ty.unit) fun _ => True :=
      hy.andThen fun d => .after (quiet_bindLocal _ _ _) fun _ => .done _
    refine .ite (fun huntyped => hdeclared ((course_error _ _).assuming ?_)) fun _ => hdeclared (.done t)
    rintro rfl
    cases huntyped

theorem course_writeThrough (root : Expr) (span : Span) :
    Course c I A [span] [] (writeThrough root span) fun _ => True := by
  have hquiet : Course c I A [span] [] (pure () : Infer Unit) fun _ => True :=
    (Course.done _).within (List.nil_sublist _) (List.Subset.refl _)
  unfold writeThrough
  split
  · refine .after (quiet_lookupLocal _) fun o => ?_
    cases o with
    | some l => exact course_write _ span fun _ => .refl _
    | none =>
      refine .after quiet_registry fun r => .ite (fun _ => ?_) fun _ => hquiet
      exact course_fault span _ fun _ => .refl _
  · exact hquiet

theorem course_assignStmt (span : Span) (h₁ : u.Runs c I) (h₂ : v.Runs c I) :
    Course c I False [span] [u.expr, v.expr] (assignStmt span u v) fun _ => True := by
  refine (course_infer h₁ none).bind fun t => .after (quiet_localPath _) fun o => ?_
  cases o with
  | some p =>
    refine (course_requireMutable p span fun _ => .refl _).bind (M := []) (F := [v.expr]) fun _ => ?_
    refine .after (quiet_declaredType p) fun d => ?_
    cases d with
    | some d => exact (course_check h₂ d).discard.andThen fun _ => .quiet (quiet_perform (.write p))
    | none => exact (course_ignored h₂ none).andThen fun _ => .quiet (quiet_perform (.write p))
  | none =>
    refine (course_writeThrough _ span).bind fun _ => .ite (fun _ => ?_) fun _ => ?_
    · exact course_ignored h₂ none
    · exact (course_check h₂ t).discard

theorem course_stmt {s : Stmt} (h : ∀ e ∈ s.exprs, e.asChild.Runs c I) :
    Course c I False s.places s.exprs (stmt s.asChild) fun _ => True := by
  cases s with
  | bind span name m ty e => exact course_bindStmt span name m ty (h e (by simp [Stmt.exprs]))
  | assign span t e =>
    exact (course_assignStmt span (h t (by simp [Stmt.exprs])) (h e (by simp [Stmt.exprs]))).returns _
  | expr span e => exact (course_inferIn (h e (by simp [Stmt.exprs])) none false).trivial

theorem course_stmts {ss : List Stmt} (h : ∀ s ∈ ss, ∀ e ∈ s.exprs, e.asChild.Runs c I) :
    Course c I False (ss.flatMap (·.places)) (ss.flatMap (·.exprs)) (stmts (Stmt.asChildren ss))
      fun _ => True := by
  induction ss with
  | nil => exact .done _
  | cons s ss ih =>
    obtain ⟨hs, hss⟩ := List.forall_mem_cons.mp h
    rw [Stmt.asChildren_cons]
    exact (course_stmt hs).bind fun t => .resume ((ih hss).returns _)

theorem course_block {ss : List Stmt} (used : Bool) (h : ∀ s ∈ ss, ∀ e ∈ s.exprs, e.asChild.Runs c I)
    (h' : u.Runs c I) :
    Course c I False (ss.flatMap (·.places)) (ss.flatMap (·.exprs) ++ [u.expr])
      (block (Stmt.asChildren ss) u x used) fun _ => True := by
  rw [block_eq]
  have hbody : Course c I False (ss.flatMap (·.places)) (ss.flatMap (·.exprs) ++ [u.expr]) (do
      let diverges ← stmts (Stmt.asChildren ss)
      let t ← elseArm u x used
      return (diverges, t)) fun _ => True :=
    ((course_stmts h).bind fun _ => (course_elseArm used h').returns _).within (by simp) (List.Subset.refl _)
  exact hbody.inScope.returns _

theorem course_returned (span : Span) (h : u.Runs c I) :
    Course c I False [] [u.expr] (returned span u) fun _ => True := by
  have hread : Quiet c (read : Infer BodyContext) := fun _ => ⟨rfl, rfl, rfl⟩
  refine .after hread fun d => .ite (fun _ => (course_check h _).discard.returns _) fun hmissing => ?_
  refine Course.missing (.ite (fun _ => .done _) fun _ => ?_) hmissing
  exact (course_fault span _ False.elim).returns _

theorem course_loopControl (span : Span) (k : LoopControl) :
    Course c I False [] [] (loopControl span k) fun _ => True := by
  have hread : Quiet c (get : Infer BodyState) := fun _ => ⟨rfl, rfl, rfl⟩
  refine .after hread fun s => .ite (fun _ => ?_) fun _ => ?_
  · exact (course_fault span _ False.elim).returns _
  · exact .after (quiet_perform (.control k s.loopDepth)) fun _ => .done _

theorem course_loop (h₁ : u.Runs c I) (h₂ : v.Runs c I) :
    Course c I False [] [u.expr, v.expr] (loop u v) fun _ => True := by
  rw [loop_eq]
  refine .after quiet_registry fun r => .after (quiet_invalidateAll _) fun _ => ?_
  refine (course_condition h₁).bind fun facts => ?_
  refine ((course_inferIn h₂ none false).inLoop.inBranch facts.whenTrue).discard.andThen fun _ => ?_
  refine .ite (fun _ => .done _) fun _ => .ite (fun _ => ?_) fun _ => .done _
  exact .after (quiet_perform (.apply _)) fun _ => .done _

end Infer

end TypeFlow
