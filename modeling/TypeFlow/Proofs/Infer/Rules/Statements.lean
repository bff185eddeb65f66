import TypeFlow.Proofs.Infer.Rules.Branches
import TypeFlow.Proofs.Typing.Assign

namespace TypeFlow

open Theory

variable {c : BodyContext} {T : Theory c} {A : Prop} {g : Spot} {σ : Scope} {x : Option Ty}

def Turn.of (p : Scope × Expr) : Turn := ⟨p.1, p.2, false⟩

theorem plan_bound (name : String) (m : Bool) (t : Ty) {u : Ty} {P : Prop} (hu : A → T.good u)
    (hσ : A → T.final → g.scope = σ) (hP : A → P) :
    Plan T A g [] (do
      Infer.bindLocal name u m
      return if t.isNever then Ty.never else Ty.unit) fun v k =>
        T.good v ∧ k.inst = g.inst ∧ (T.final → k.scope = σ.bind name ⟨u, m⟩) ∧ P := by
  refine (Plan.bindLocal name m hu).andThen fun _ k => .pure ?_
  rintro ⟨hA, rfl⟩
  refine ⟨good_neverIf _, rfl, fun hfinal => ?_, hP hA⟩
  rw [hσ hA hfinal]

def Account.Initializes (T : Account c) (w : Option Written) (e : Expr) : Prop :=
  match w with
  | some w => T.Accepts e (c.writtenType w)
  | none => T.final → ∃ t, T.typeOf e = some t ∧ (t.isUntyped = true → T.failed)

theorem Theory.initializes_of_stopped {w : Option Written} {e : Expr} (h : T.stopped) : T.Initializes w e := by
  have hrunning {P : Prop} (hfinal : T.final) : P := absurd h (T.settled hfinal).running
  cases w with
  | none => exact hrunning
  | some w => exact hrunning

theorem plan_bindStmt (span : Span) (name : String) (m : Bool) {w : Option Written} {init : Child}
    (h : T.runs init) (hw : ∀ v, w = some v → T.written v) (hσ : A → T.final → g.scope = σ) :
    Plan T A g [init.turn σ] (Infer.bindStmt span name m w init) fun t k =>
      T.good t ∧ k.inst = g.inst ∧
        (T.final → k.scope = σ.bind name ⟨c.letType T.typeOf w init.expr, m⟩) ∧
        T.Initializes w init.expr := by
  unfold Infer.bindStmt
  cases w with
  | some w =>
    refine (rule_resolveType (hw w rfl) span).andThen fun u => ?_
    refine Plan.imp (Q := fun t k => T.good t ∧ k.inst = g.inst ∧
      (T.final → k.scope = σ.bind name ⟨u, m⟩) ∧ T.Accepts init.expr u) ?_ fun t k hA ht => ?_
    · refine Rule.ite (fun herror => ?_) fun _ => ?_
      · refine (rule_infer h (fun _ => suggests_none) fun hA => hσ hA.1).andThen fun t => ?_
        refine plan_bound name m t (fun hA => hA.1.2.1) (fun hA => hσ hA.1.1) fun hA => ?_
        rw [Ty.eq_error_of_isError herror]
        exact accepts_of_told hA.2.2.1 (.inl (c.registry.assignableIn_error _ _))
      · refine (rule_check h (fun hA => .inl hA.2.1) fun hA => hσ hA.1).andThen fun t => ?_
        refine plan_bound name m t (fun hA => hA.1.2.1) (fun hA => hσ hA.1.1) fun hA => ?_
        exact accepts_of_told hA.2.2.1 hA.2.2.2
    · obtain ⟨-, -, rfl⟩ := hA
      exact ht
  | none =>
    refine (rule_infer h (fun _ => suggests_none) hσ).andThen fun t => ?_
    have hend {A : Prop} {u : Ty} (hu : A → T.good u) (hσ : A → T.final → g.scope = σ)
        (hlet : A → T.final → u = c.letType T.typeOf none init.expr)
        (hinit : A → T.Initializes none init.expr) :
        Plan T A g [] (do
          Infer.bindLocal name u m
          return if t.isNever then Ty.never else Ty.unit) fun t k =>
            T.good t ∧ k.inst = g.inst ∧
              (T.final → k.scope = σ.bind name ⟨c.letType T.typeOf none init.expr, m⟩) ∧
              T.Initializes none init.expr := by
      refine (plan_bound (P := A) name m t hu hσ id).imp fun v k hA hv => ?_
      refine ⟨hv.1, hv.2.1, fun hfinal => ?_, hinit hA⟩
      rw [hv.2.2.1 hfinal, hlet hA hfinal]
    refine Rule.ite (fun huntyped => ?_) fun huntyped => ?_
    · refine (rule_report _ _).andThen fun u => hend ?_ (fun hA => hσ hA.1.1) ?_ ?_
      · exact fun hA => hA.2.1 ▸ T.error hA.2.2
      · rintro ⟨⟨-, -, htold, -⟩, rfl, -⟩ hfinal
        simp [BodyContext.letType, htold hfinal, huntyped]
      · rintro ⟨⟨-, -, htold, -⟩, -, hreported⟩ hfinal
        exact ⟨t, htold hfinal, fun _ => .inr ⟨_, hreported⟩⟩
    · have htyped : t.isUntyped = false := by simpa using huntyped
      refine hend (fun hA => hA.2.1.typed htyped) (fun hA => hσ hA.1) ?_ ?_
      · rintro ⟨-, -, htold, -⟩ hfinal
        simp [BodyContext.letType, htold hfinal, huntyped]
      · rintro ⟨-, -, htold, -⟩ hfinal
        exact ⟨t, htold hfinal, fun h => absurd h huntyped⟩

theorem rule_writeThrough (root : Expr) (span : Span) :
    Rule T A g [] (Infer.writeThrough root span) fun _ => True := by
  unfold Infer.writeThrough
  split
  · refine (rule_lookupLocal _).andThen fun o => ?_
    cases o with
    | some l => exact rule_write _ _
    | none =>
      refine plan_registry (Rule.ite (fun _ => (rule_fault _ _).trivial) fun _ => ?_)
      exact Rule.pure fun _ => True.intro
  · exact Rule.pure fun _ => True.intro

theorem rule_assignStmt (span : Span) {target value : Child} (h₁ : T.runs target) (h₂ : T.runs value)
    (hσ : A → T.final → g.scope = σ) :
    Rule T A g [target.turn σ, value.turn σ] (Infer.assignStmt span target value) fun _ => True := by
  unfold Infer.assignStmt
  refine (rule_infer h₁ (fun _ => suggests_none) hσ).andThen fun t => ?_
  refine (rule_localPath _).andThen fun o => ?_
  cases o with
  | some p =>
    refine (rule_requireMutable p span).andThen fun _ => (rule_declaredType p).andThen fun d => ?_
    cases d with
    | some d =>
      refine (rule_check h₂ (fun hA => .inl (hA.2 d rfl).1) fun hA => hσ hA.1.1.1.1).ignored.andThen ?_
      exact fun _ => rule_overwrite p
    | none =>
      refine (rule_infer h₂ (fun _ => suggests_none) fun hA => hσ hA.1.1.1.1).ignored.andThen ?_
      exact fun _ => rule_overwrite p
  | none =>
    refine (rule_writeThrough _ _).andThen fun _ => Rule.ite (fun _ => ?_) fun _ => ?_
    · exact (rule_infer h₂ (fun _ => suggests_none) fun hA => hσ hA.1.1.1).ignored
    · exact (rule_check h₂ (fun hA => hA.1.1.2.1) fun hA => hσ hA.1.1.1).ignored

def Stmt.asChild : Stmt → StmtChild
  | .bind span x m w e => .bind span x m w e.asChild
  | .assign span t e => .assign span t.asChild e.asChild
  | .expr _ e => .expr e.asChild

theorem Stmt.asChildren_cons (s : Stmt) (ss : List Stmt) :
    asChildren (s :: ss) = s.asChild :: asChildren ss := by cases s <;> rfl

def Account.Binds (T : Account c) (ss : List Stmt) : Prop :=
  ∀ {span x m w e}, .bind span x m w e ∈ ss → T.Initializes w e

theorem plan_stmt {s : Stmt} (h : ∀ e ∈ s.exprs, T.runs e.asChild) (hw : ∀ w ∈ s.annotations, T.written w)
    (hσ : A → T.final → g.scope = σ) :
    Plan T A g (s.exprs.map fun e => Turn.of (σ, e)) (Infer.stmt s.asChild) fun t k =>
      T.fine t ∧ k.inst = g.inst ∧ (T.final → k.scope = c.afterStmt T.typeOf σ s) ∧ T.Binds [s] := by
  cases s with
  | bind span x m w e =>
    have he : T.runs e.asChild := h e (by simp [Stmt.exprs])
    have hwritten : ∀ v, w = some v → T.written v := fun v hv => hw v (Option.mem_toList.mpr hv)
    refine (plan_bindStmt span x m he hwritten hσ).imp fun t k _ ht => ⟨.inl ht.1, ht.2.1, ht.2.2.1, ?_⟩
    rintro _ _ _ v _ hmem
    cases List.mem_singleton.mp hmem
    exact ht.2.2.2
  | assign span t e =>
    refine Plan.imp ((rule_assignStmt span (h t (by simp [Stmt.exprs])) (h e (by simp [Stmt.exprs]))
      hσ).returns (R := T.fine) fun _ _ _ => .inl good_unit) fun u k hA hu => ?_
    obtain ⟨rfl, hu⟩ := hu
    refine ⟨hu, rfl, hσ hA, ?_⟩
    rintro _ _ _ _ _ hmem
    cases List.mem_singleton.mp hmem
  | expr span e =>
    refine Plan.imp (rule_discarded (h e (by simp [Stmt.exprs])) hσ) fun u k hA hu => ?_
    obtain ⟨rfl, hu⟩ := hu
    refine ⟨hu, rfl, hσ hA, ?_⟩
    rintro _ _ _ _ _ hmem
    cases List.mem_singleton.mp hmem

theorem plan_stmts {ss : List Stmt} (h : ∀ s ∈ ss, ∀ e ∈ s.exprs, T.runs e.asChild)
    (hw : ∀ s ∈ ss, ∀ w ∈ s.annotations, T.written w) (hσ : A → T.final → g.scope = σ) :
    Plan T A g ((c.stmtParts T.typeOf σ ss).map Turn.of) (Infer.stmts (Stmt.asChildren ss)) fun _ k =>
      k.inst = g.inst ∧ (T.final → k.scope = ss.foldl (c.afterStmt T.typeOf) σ) ∧
        T.Binds ss := by
  induction ss generalizing A g σ with
  | nil => exact .pure fun hA => ⟨rfl, hσ hA, nofun⟩
  | cons s ss ih =>
    have hrest : ∀ s ∈ ss, ∀ e ∈ s.exprs, T.runs e.asChild := fun d hd => h d (by simp [hd])
    have hwrest : ∀ s ∈ ss, ∀ w ∈ s.annotations, T.written w := fun d hd => hw d (by simp [hd])
    rw [Stmt.asChildren_cons, BodyContext.stmtParts, List.map_append, List.map_map]
    unfold Infer.stmts
    refine (plan_stmt (h s (by simp)) (hw s (by simp)) hσ).andThen fun t k => rule_isAborted.andThen fun b => ?_
    refine Rule.ite (fun hb => ?_) fun _ => ?_
    · refine Plan.weaken (.pure ?_) (Turn.covers_nil _)
      rintro ⟨⟨-, -, hinst, -⟩, hstop⟩
      have hstopped : T.stopped := hstop hb
      exact ⟨hinst, fun hfinal => absurd hstopped (T.settled hfinal).running,
        fun _ => initializes_of_stopped hstopped⟩
    · refine Plan.map (ih hrest hwrest fun hA => hA.1.2.2.2.1) fun d k' hA hd => ?_
      obtain ⟨⟨-, -, hinst, -, hs⟩, -⟩ := hA
      obtain ⟨hinst', hscope, hann⟩ := hd
      refine ⟨hinst'.trans hinst, hscope, fun hmem => ?_⟩
      rcases List.mem_cons.mp hmem with heq | hmem
      · exact hs (List.mem_singleton.mpr heq)
      · exact hann hmem

theorem rule_block (s : Site) {ss : List Stmt} {e : Expr} (used : Bool)
    (h₁ : ∀ s ∈ ss, ∀ e ∈ s.exprs, T.runs e.asChild) (hw : ∀ s ∈ ss, ∀ w ∈ s.annotations, T.written w)
    (h₂ : e.isPresent = true → T.runs e.asChild) (hx : T.Suggests x) :
    Rule T A g ((c.partsIn T.typeOf g.scope (.block s ss e)).map Turn.of)
      (Infer.block (Stmt.asChildren ss) e.asChild x used) fun t => T.fine t ∧ T.Binds ss := by
  rw [Infer.block_eq, BodyContext.partsIn, List.map_append]
  refine Rule.map (Q := fun r => T.fine r.2 ∧ T.Binds ss) (.inScope ?_) fun r _ hr => ⟨?_, hr.2⟩
  · refine (plan_stmts (g := { g with scope := g.scope.child }) h₁ hw fun _ _ => rfl).andThen fun d k => ?_
    have helse {B : Prop} {τ : Scope} (hk : B → T.final → k.scope = τ) :
        Rule T B k [e.asChild.turn τ] (Infer.elseArm e.asChild x used) T.fine :=
      rule_elseArm used h₂ hx hk
    refine Plan.map (helse fun hA => hA.2.2.1) fun t k' hA ht => ?_
    obtain ⟨rfl, ht⟩ := ht
    exact ⟨hA.2.1, ht, hA.2.2.2⟩
  · split
    · exact .inl good_never
    · exact hr.1

theorem rule_returned (span : Span) {value : Child} (h : value.expr.isPresent = true → T.runs value) :
    Rule T A g [value.turn g.scope] (Infer.returned span value) fun t =>
      T.good t ∧ (value.expr.isPresent = true → T.Accepts value.expr c.returnType) := by
  unfold Infer.returned
  refine .read (Rule.ite (fun hp => ?_) fun hp => Plan.weaken ?_ (Turn.covers_nil _))
  · exact (rule_checked (h hp) fun _ => .inl T.laws.ret).returns fun _ _ ht => ⟨good_never, fun _ => ht⟩
  · have hnone : value.expr.isPresent = true → T.Accepts value.expr c.returnType := fun h => absurd h hp
    refine Rule.ite (fun _ => Rule.pure fun _ => ⟨good_never, hnone⟩) fun _ => ?_
    exact (rule_fault _ _).returns fun _ _ _ => ⟨good_never, hnone⟩

theorem rule_loopControl (span : Span) (k : LoopControl) :
    Rule T A g [] (Infer.loopControl span k) T.good := by
  have hlook : Infer.loopControl span k = (do
      let depth ← (do return (·.depth) (← Infer.look) : Infer Nat)
      if depth == 0 then discard <| Infer.report span (.controlOutsideLoop k)
      else Infer.perform (.control k depth)
      return .never) := rfl
  rw [hlook]
  refine (rule_look (Q := fun _ => True) fun _ _ _ _ _ => True.intro).andThen fun depth => ?_
  refine Rule.ite (fun _ => ?_) fun _ => ?_
  · exact (rule_fault _ _).returns fun _ _ _ => good_never
  · exact Rule.returns (.control k depth) fun _ _ _ => good_never

theorem rule_loopTest {test : Expr} (h : test.isPresent = true → T.runs test.asChild) :
    Rule T A g [test.asChild.turn g.scope] (Infer.condition test.asChild) (T.Facts g.scope) := by
  cases hp : test.isPresent with
  | true => exact rule_condition (h hp)
  | false =>
    cases test
    case missing =>
      refine Plan.weaken ?_ (Turn.covers_nil _)
      exact (rule_requireAssignable _ _ _).andThen fun _ => Rule.pure fun _ => facts_empty _
    all_goals cases hp

theorem rule_loop {test body : Expr} (h₁ : test.isPresent = true → T.runs test.asChild)
    (h₂ : T.runs body.asChild) :
    Rule T A g [test.asChild.turn g.scope, body.asChild.turn g.scope]
      (Infer.loop test.asChild body.asChild) T.good := by
  rw [Infer.loop_eq]
  refine plan_registry ((rule_invalidateAll _).andThen fun _ => (rule_loopTest h₁).andThen fun f => ?_)
  have hbody {A : Prop} := rule_discarded (A := A) (g := g) h₂ fun _ _ => rfl
  refine (Rule.ignored (.inBranch (fun hA => hA.2.1) (.inLoop hbody))).andThen fun _ => ?_
  refine Rule.ite (fun _ => Rule.pure fun _ => good_unit) fun _ => ?_
  refine Rule.ite (fun _ => ?_) fun _ => Rule.pure fun _ => good_never
  exact (rule_applyFacts fun hA => hA.1.2.2).returns fun _ _ _ => good_unit

end TypeFlow
