import TypeFlow.Proofs.Infer.Rules.Values
import TypeFlow.Proofs.Infer.Scoping

namespace TypeFlow

open Theory

variable {c : BodyContext} {T : Theory c} {A : Prop} {g : Spot} {σ : Scope} {x : Option Ty}

namespace Theory

def Tests (T : Theory c) (ch : Child) : Prop := ∀ p, ch.path? = some p → T.about p

def OnPaths (T : Theory c) (σ : Scope) (p : Option Path) (path : Option (Path × Ty)) : Prop :=
  ∀ q, path = some q → T.OnPath σ p q

def SeenAs (T : Theory c) (path : Option (Path × Ty)) (t : Ty) : Prop :=
  ∀ q, path = some q → T.final → q.1.fields = [] → t = .error ∨ T.views q.2 t

theorem seenAs_of_sees {e : Expr} {path : Option (Path × Ty)} {t : Ty} (h : T.Sees σ e t)
    (k : T.OnPaths σ e.path? path) : T.SeenAs path t := by
  rintro ⟨⟨root, fields⟩, d⟩ hq hfinal hfields
  cases hfields
  obtain ⟨hpath, -, -, hbound⟩ := k _ hq
  obtain ⟨l, hl, rfl⟩ := (T.settled hfinal).named hbound
  exact h.views hfinal root l hpath hl

theorem facts_factsOf {p : Option Path} {path : Option (Path × Ty)} {f f' : Fact}
    (h : T.OnPaths σ p path) (hf : ∀ t, f = .is t ∨ f = .isNot t → T.good t)
    (hf' : ∀ t, f' = .is t ∨ f' = .isNot t → T.good t)
    (hv : ∀ q, path = some q → T.final → q.1.fields = [] → ∀ t, f = .is t → T.views q.2 t)
    (hv' : ∀ t, f' ≠ .is t) : T.Facts σ (Infer.factsOf path f f') := by
  unfold Infer.factsOf
  split
  · next p t =>
    obtain ⟨-, hp, ht, hbound⟩ := h (p, t) rfl
    refine ⟨List.forall_mem_singleton.mpr ?_, List.forall_mem_singleton.mpr ?_⟩
    · exact ⟨hp, ht, hf, hbound, hv _ rfl⟩
    · exact ⟨hp, ht, hf', hbound, fun _ _ t h => absurd h (hv' t)⟩
  · exact facts_empty σ

theorem facts_swap {f : Facts} (h : T.Facts σ f) : T.Facts σ f.swap := ⟨h.2, h.1⟩

end Theory

theorem rule_narrowingOf (path : Option (Path × Ty)) :
    Rule T A g [] (Infer.narrowingOf path) fun _ => True := by
  unfold Infer.narrowingOf
  split
  · exact (rule_narrowing _).trivial
  · exact Rule.pure fun _ => True.intro

theorem rule_typeTest {subject : Ty} {path : Option (Path × Ty)} (target : Ty) (span : Span)
    (h : A → T.SeenAs path subject) :
    Rule T A g [] (Infer.typeTest subject path target span) fun b => b = true →
      ∀ q, path = some q → T.final → q.1.fields = [] → T.views q.2 target := by
  unfold Infer.typeTest
  refine Rule.ite (fun _ => Rule.pure fun _ => nofun) fun herror => ?_
  refine (rule_narrowingOf path).andThen fun o => ?_
  split
  · exact (rule_fault _ _).returns fun _ _ _ => nofun
  · extract_lets tested
    refine plan_registry (Rule.ite (fun hhold => Rule.pure ?_) fun _ => ?_)
    · rintro ⟨hA, -⟩ - q rfl hfinal hfields
      refine T.test ?_ hhold
      show T.views q.2 (if subject.isOpen then subject else q.2)
      split
      · rcases h hA q rfl hfinal hfields with rfl | hseen
        · simp [Ty.isError] at herror
        · exact hseen
      · exact T.unseen _
    · exact (rule_fault _ _).returns fun _ _ _ => nofun

theorem rule_isTest (span : Span) {operand : Child} {w : Written} (h : T.runs operand)
    (hp : T.Tests operand) (hw : T.written w) :
    Rule T A g [operand.turn g.scope] (Infer.isTest span operand w) (T.Facts g.scope) := by
  unfold Infer.isTest
  refine (rule_alone h).andThen fun subject => (rule_resolveType hw span).andThen fun target => ?_
  refine (rule_narrowable hp).andThen fun path => ?_
  refine (rule_typeTest target span fun hA => seenAs_of_sees hA.1.1.2.2.2 hA.2).andThen fun b => ?_
  refine Rule.ite (fun hb => Rule.pure ?_) fun _ => Rule.pure fun _ => facts_empty _
  rintro ⟨⟨⟨-, ht, -⟩, hpath⟩, hseen⟩
  refine facts_factsOf hpath ?_ ?_ ?_ nofun
  · rintro t (h | h) <;> cases h
    exact ht
  · rintro t (h | h) <;> cases h
    exact ht
  · rintro q hq hfinal hfields t ⟨⟩
    exact hseen hb q hq hfinal hfields

theorem rule_noneCheck (span : Span) {operand : Child} (h : T.runs operand) (hp : T.Tests operand) :
    Rule T A g [operand.turn g.scope] (Infer.noneCheck span operand) (T.Facts g.scope) := by
  unfold Infer.noneCheck
  refine (rule_alone h).andThen fun subject => Rule.ite (fun _ => Rule.pure fun _ => facts_empty _) ?_
  intro _
  split
  · exact (rule_fault _ _).returns fun _ _ _ => facts_empty _
  · refine (rule_narrowable hp).map fun path _ hpath => facts_factsOf hpath ?_ ?_ ?_ nofun
    · rintro t (h | h) <;> cases h
    · rintro t (h | h) <;> cases h
    · rintro q - - - t ⟨⟩

theorem rule_conjunction {left right : Child} (hl : T.runs left) (hr : T.runs right) :
    Rule T A g [left.turn g.scope, right.turn g.scope] (Infer.conjunction left right)
      (T.Facts g.scope) := by
  rw [Infer.conjunction_eq]
  refine (rule_condition hl).andThen fun l => ?_
  refine Rule.andThen (.inBranch (fun hA => hA.2.1) (rule_condition hr)) fun r => Rule.pure ?_
  rintro ⟨⟨-, h₁⟩, h₂, -⟩
  exact ⟨List.forall_mem_append.mpr ⟨h₁.1, h₂.1⟩, nofun⟩

theorem rule_disjunction {left right : Child} (hl : T.runs left) (hr : T.runs right) :
    Rule T A g [left.turn g.scope, right.turn g.scope] (Infer.disjunction left right)
      (T.Facts g.scope) := by
  rw [Infer.disjunction_eq]
  refine (rule_condition hl).andThen fun l => ?_
  refine Rule.andThen (.inBranch (fun hA => hA.2.2) (rule_condition hr)) fun r => Rule.pure ?_
  rintro ⟨⟨-, h₁⟩, h₂, -⟩
  exact ⟨nofun, List.forall_mem_append.mpr ⟨h₁.2, h₂.2⟩⟩

theorem rule_negation {operand : Child} (h : T.runs operand) :
    Rule T A g [operand.turn g.scope] (Infer.negation operand) (T.Facts g.scope) :=
  (rule_condition h).map fun _ _ hf => facts_swap hf

theorem rule_negatedIf {us : List Turn} (b : Bool) {act : Infer Facts}
    (h : Rule T A g us act (T.Facts g.scope)) :
    Rule T A g us (Infer.negatedIf b act) (T.Facts g.scope) := by
  refine h.map fun f _ hf => ?_
  split
  · exact facts_swap hf
  · exact hf

theorem fine_of_joinArms {ts : List Ty} {t : Ty} (h : ∀ u ∈ ts, T.fine u) (hx : T.Suggests x)
    (k : c.joinArms ts x = .ok t) : T.fine t := by
  rcases BodyContext.cases_of_joinArms k with hjoined | ⟨hexpected, -⟩
  · exact T.laws.joinAll h hjoined
  · exact hx t hexpected

theorem rule_branchType (span : Span) {ts : List Ty} (used : Bool) (h : A → ∀ t ∈ ts, T.fine t)
    (hx : T.Suggests x) : Rule T A g [] (Infer.branchType span ts x used) T.fine := by
  refine Rule.ite (fun _ => ?_) fun _ => Rule.pure fun _ => .inl (good_neverIf _)
  refine Rule.imp (.joinArms span ts x) fun t hA ht => ?_
  rcases ht with ht | ⟨rfl, ht⟩
  · exact fine_of_joinArms (h hA) hx ht
  · exact .inl (T.error ht)

theorem rule_elseArm {branch : Child} (used : Bool) (h : branch.expr.isPresent = true → T.runs branch)
    (hx : T.Suggests x) (hσ : A → T.final → g.scope = σ) :
    Rule T A g [branch.turn σ] (Infer.elseArm branch x used) T.fine := by
  refine Rule.ite (fun hp => ?_) fun _ => Plan.weaken (Rule.pure fun _ => .inl good_unit) (Turn.covers_nil _)
  exact (rule_inferIn used (h hp) (fun _ => hx) hσ).imp fun _ _ ht => ht.1

theorem rule_twoArms (span : Span) {t u : Ty} (hasElse : Bool) (used : Bool) (ht : A → T.fine t)
    (hu : A → T.fine u) (hx : T.Suggests x) :
    Rule T A g [] (Infer.twoArms span t u hasElse x used) T.fine := by
  refine Rule.ite (fun _ => rule_branchType span used (fun hA v hv => ?_) hx) fun _ =>
    Rule.pure fun _ => .inl good_unit
  simp only [List.mem_cons, List.not_mem_nil, or_false] at hv
  rcases hv with rfl | rfl
  · exact ht hA
  · exact hu hA

theorem rule_secondArm (span : Span) {facts : List FlowFact} {first : Ty × Layer} {branch : Child}
    (used : Bool) (hf : A → ∀ f ∈ facts, T.Fact g.scope f)
    (h₁ : A → T.fine first.1 ∧ T.fits g.scope first.2)
    (h : branch.expr.isPresent = true → T.runs branch) (hx : T.Suggests x) :
    Rule T A g [branch.turn g.scope] (do
      let second ← Infer.inBranch facts (Infer.elseArm branch x used)
      Infer.joinBranches [⟨first.2, first.1.isNever⟩, ⟨second.2, second.1.isNever⟩]
      Infer.twoArms span first.1 second.1 branch.expr.isPresent x used) T.fine := by
  refine Rule.andThen (.inBranch hf (rule_elseArm used h hx fun _ _ => rfl)) fun second => ?_
  refine (rule_joinBranches fun hA o ho => ?_).andThen fun _ => ?_
  · simp only [List.mem_cons, List.not_mem_nil, or_false] at ho
    rcases ho with rfl | rfl
    · exact (h₁ hA.1).2
    · exact hA.2.2
  · exact rule_twoArms _ _ _ (fun hA => (h₁ hA.1.1).1) (fun hA => hA.1.2.1) hx

theorem rule_cond (span : Span) {test thenBranch elseBranch : Child} (used : Bool)
    (h₁ : T.runs test) (h₂ : T.runs thenBranch)
    (h₃ : elseBranch.expr.isPresent = true → T.runs elseBranch) (hx : T.Suggests x) :
    Rule T A g [test.turn g.scope, thenBranch.turn g.scope, elseBranch.turn g.scope]
      (Infer.cond span test thenBranch elseBranch x used) T.fine := by
  rw [Infer.cond_eq]
  refine (rule_condition h₁).andThen fun facts => ?_
  have hthen := rule_inferIn (A := A ∧ T.Facts g.scope facts) (g := g) used h₂ (fun _ => hx)
    fun _ _ => rfl
  refine Rule.andThen (.inBranch (fun hA => hA.2.1) hthen) fun first => ?_
  exact rule_secondArm span used (fun hA => hA.1.2.2) (fun hA => ⟨hA.2.1.1, hA.2.2⟩) h₃ hx

theorem rule_guardPayload (value : Child) {t : Ty} (h : A → T.fine t) :
    Rule T A g [] (Infer.guardPayload value t) fun u => T.good u ∧ u = BodyContext.payloadOf t := by
  unfold Infer.guardPayload
  split
  · exact Rule.pure fun hA => ⟨(h hA).part T.laws.toClosed (by simp [Ty.parts]), rfl⟩
  · exact Rule.pure fun hA => ⟨(h hA).typed rfl, rfl⟩
  · next hoption _ =>
    refine (rule_report _ _).imp fun u _ hu => ⟨hu.1 ▸ T.error hu.2, ?_⟩
    rw [hu.1, BodyContext.payloadOf]
    exact hoption

theorem rule_guarded (binding : String) {t : Ty} {thenBranch : Child} (used : Bool)
    (h : T.runs thenBranch) (ht : A → T.good t) (hx : T.Suggests x)
    (hσ : A → T.final → g.scope.child.bind binding ⟨t, false⟩ = σ) :
    Rule T A g [thenBranch.turn σ] (Infer.inScope do
      Infer.bindLocal binding t false
      thenBranch.inferIn x used) T.fine := by
  refine .inScope ((Plan.bindLocal binding false ht).andThen fun _ k => ?_)
  refine Plan.imp (rule_inferIn used h (fun _ => hx) fun hA hfinal => ?_) fun v k' hA hv => ?_
  · obtain ⟨hA, rfl⟩ := hA
    exact hσ hA hfinal
  · obtain ⟨rfl, hgood, -⟩ := hv
    exact ⟨hA.2 ▸ rfl, hgood⟩

theorem rule_guardBind (span : Span) (binding : String) {value thenBranch elseBranch : Child}
    (used : Bool) (h₁ : T.runs value) (hp : T.Tests value) (h₂ : T.runs thenBranch)
    (h₃ : elseBranch.expr.isPresent = true → T.runs elseBranch) (hx : T.Suggests x) :
    Rule T A g [value.turn g.scope,
        thenBranch.turn (BodyContext.guardScope T.typeOf g.scope binding value.expr),
        elseBranch.turn g.scope]
      (Infer.guardBind span binding value thenBranch elseBranch x used) T.fine := by
  rw [Infer.guardBind_eq]
  refine (rule_alone h₁).andThen fun t => (rule_guardPayload _ fun hA => hA.2.1).andThen fun u => ?_
  refine (rule_narrowable hp).andThen fun path => ?_
  have hfacts (hpath : T.OnPaths g.scope value.path? path) :
      T.Facts g.scope (Infer.factsOf path .notNone .isNone) := by
    refine facts_factsOf hpath ?_ ?_ ?_ nofun
    · rintro t (h | h) <;> cases h
    · rintro t (h | h) <;> cases h
    · rintro q - - - t ⟨⟩
  refine Rule.andThen (.inBranch (fun hA => (hfacts hA.2).1)
    (rule_guarded binding used h₂ (fun hA => hA.1.2.1) hx fun hA hfinal => ?_)) fun first => ?_
  · obtain ⟨⟨⟨-, -, htold, -⟩, -, hu⟩, -⟩ := hA
    simp [BodyContext.guardScope, BodyContext.guardType, htold hfinal, hu]
  · exact rule_secondArm span used (fun hA => (hfacts hA.1.2).2) (fun hA => hA.2) h₃ hx

def PatternChild.turns (σ : Scope) : PatternChild → List Turn
  | .type _ => []
  | .value ch => [ch.turn σ]

def ArmChild.turns (σ : Scope) (arm : ArmChild) : List Turn := arm.pattern.turns σ ++ [arm.body.turn σ]

structure Theory.RunsArm (T : Theory c) (arm : ArmChild) : Prop where
  pattern : ∀ ch, arm.pattern = .value ch → T.runs ch
  written : ∀ w, arm.pattern = .type w → T.written w
  body : T.runs arm.body

theorem rule_armPattern {subject : Ty} {path : Option (Path × Ty)} {arm : ArmChild}
    (hs : A → T.fine subject) (hp : A → T.SeenAs path subject) (h : T.RunsArm arm) :
    Rule T A g (arm.pattern.turns g.scope) (Infer.armPattern subject path arm) fun o =>
      ∀ t, o = some t → T.good t ∧
        ∀ q, path = some q → T.final → q.1.fields = [] → T.views q.2 t := by
  obtain ⟨pattern, body, span⟩ := arm
  cases pattern with
  | value ch =>
    have hch := h.pattern ch rfl
    refine (rule_infer hch (fun hA => suggests_some (hs hA)) fun _ _ => rfl).andThen fun t => ?_
    refine plan_assignable (plan_assignable (Rule.ite (fun _ => Rule.pure fun _ => nofun) fun _ => ?_))
    exact (rule_fault _ _).returns fun _ _ _ => nofun
  | type w =>
    refine (rule_resolveType (h.written w rfl) span).andThen fun t => ?_
    refine (rule_typeTest t span fun hA => hp hA.1).map fun b hA hb => ?_
    split
    · next htest =>
      rintro u ⟨⟩
      exact ⟨hA.2.1, hb htest⟩
    · exact nofun

theorem Theory.fact_armFact {p : Option Path} {path : Option (Path × Ty)} {target : Option Ty}
    {fact : Ty → Fact} (hp : T.OnPaths σ p path) (ht : ∀ t, target = some t → T.good t)
    (hfact : ∀ t u, fact t = .is u ∨ fact t = .isNot u → u = t)
    (hseen : ∀ q t u, path = some q → target = some t → T.final → q.1.fields = [] → fact t = .is u →
      T.views q.2 u) : ∀ f ∈ Infer.armFact path target fact, T.Fact σ f := by
  intro f hf
  unfold Infer.armFact at hf
  split at hf
  · next p d t =>
    obtain ⟨-, habout, hd, hbound⟩ := hp (p, d) rfl
    rw [List.mem_singleton.mp hf]
    refine ⟨habout, hd, fun u hu => hfact t u hu ▸ ht t rfl, hbound, fun hfinal hfields u hu => ?_⟩
    exact hseen (p, d) t u rfl rfl hfinal hfields hu
  · cases hf

theorem rule_arms {subject : Ty} {p : Option Path} {path : Option (Path × Ty)} (used : Bool)
    (hs : A → T.fine subject) (hp : A → T.OnPaths g.scope p path) (hseen : A → T.SeenAs path subject)
    (hx : T.Suggests x) {arms : List ArmChild} (h : ∀ a ∈ arms, T.RunsArm a) :
    Rule T A g (arms.flatMap (·.turns g.scope)) (Infer.arms subject path x used arms) fun rs =>
      ∀ r ∈ rs, T.fits g.scope r.1.layer ∧ T.fine r.2 := by
  induction arms generalizing A with
  | nil => exact Rule.pure fun _ => nofun
  | cons arm arms ih =>
    have harm := h arm (by simp)
    have hrest : ∀ a ∈ arms, T.RunsArm a := fun a ha => h a (by simp [ha])
    rw [Infer.arms_cons, List.flatMap_cons, ArmChild.turns, List.append_assoc]
    refine (rule_armPattern hs hseen harm).andThen fun target => ?_
    have hbody := rule_inferIn (A := A ∧ ∀ t, target = some t → T.good t ∧
        ∀ q, path = some q → T.final → q.1.fields = [] → T.views q.2 t) (g := g) used harm.body
      (fun _ => hx) fun _ _ => rfl
    refine Rule.andThen (.inBranch (fun hA => ?_) hbody) fun first => ?_
    · refine fact_armFact (hp hA.1) (fun t ht => (hA.2 t ht).1) ?_ ?_
      · rintro t u (h | h) <;> cases h
        rfl
      · rintro q t u hq ht hfinal hfields ⟨⟩
        exact (hA.2 t ht).2 q hq hfinal hfields
    refine (rule_applyFacts fun hA => ?_).andThen fun _ => ?_
    · refine fact_armFact (hp hA.1.1) (fun t ht => (hA.1.2 t ht).1) ?_ ?_
      · rintro t u (h | h) <;> cases h
        rfl
      · rintro q t u - - - - ⟨⟩
    refine (ih (fun hA => hs hA.1.1.1) (fun hA => hp hA.1.1.1) (fun hA => hseen hA.1.1.1) hrest).map
      fun rs hA hrs => List.forall_mem_cons.mpr ⟨?_, hrs⟩
    obtain ⟨⟨-, ht, hlayer⟩, -⟩ := hA
    exact ⟨hlayer, ht.1⟩

theorem rule_lastArm (path : Option (Path × Ty)) {branch : Child} (used : Bool)
    (h : branch.expr.isPresent = true → T.runs branch) (hx : T.Suggests x) :
    Rule T A g [branch.turn g.scope] (Infer.lastArm path branch x used) fun r =>
      T.fits g.scope r.1.layer ∧ ∀ t, r.2 = some t → T.fine t := by
  rw [Infer.lastArm_eq]
  refine Rule.ite (fun hp => ?_) fun _ => Plan.weaken ?_ (Turn.covers_nil _)
  · have hbranch := rule_inferIn (A := A) (g := g) used (h hp) (fun _ => hx) fun _ _ => rfl
    refine Rule.andThen (.inBranch nofun hbranch) fun r => Rule.pure fun hA => ⟨hA.2.2, ?_⟩
    rintro t ⟨⟩
    exact hA.2.1.1
  · refine (rule_narrowingOf path).andThen fun known => ?_
    refine rule_look (f := fun v => (Outcome.mk v.layer (known.any (·.ty.isNever)), none)) ?_
    exact fun _ v _ hfits _ => ⟨hfits, nofun⟩

theorem rule_allArms {subject : Ty} {p : Option Path} {path : Option (Path × Ty)} (used : Bool)
    (hs : A → T.fine subject) (hp : A → T.OnPaths g.scope p path) (hseen : A → T.SeenAs path subject)
    {arms : List ArmChild} {branch : Child} (h : ∀ a ∈ arms, T.RunsArm a)
    (k : branch.expr.isPresent = true → T.runs branch) (hx : T.Suggests x) :
    Rule T A g (arms.flatMap (·.turns g.scope) ++ [branch.turn g.scope]) (do
      let results ← Infer.arms subject path x used arms
      let last ← Infer.lastArm path branch x used
      return (results, last)) fun r => (∀ q ∈ r.1, T.fits g.scope q.1.layer ∧ T.fine q.2) ∧
        T.fits g.scope r.2.1.layer ∧ ∀ t, r.2.2 = some t → T.fine t :=
  (rule_arms used hs hp hseen hx h).andThen fun _ =>
    (rule_lastArm path used k hx).map fun _ hA hlast => ⟨hA.2, hlast⟩

theorem rule_matchOn (span : Span) {scrutinee elseBranch : Child} {arms : List ArmChild} (used : Bool)
    (h₁ : T.runs scrutinee) (hp : T.Tests scrutinee) (h₂ : ∀ a ∈ arms, T.RunsArm a)
    (h₃ : elseBranch.expr.isPresent = true → T.runs elseBranch) (hx : T.Suggests x) :
    Rule T A g (scrutinee.turn g.scope :: (arms.flatMap (·.turns g.scope) ++ [elseBranch.turn g.scope]))
      (Infer.matchOn span scrutinee arms elseBranch x used) T.fine := by
  rw [Infer.matchOn_eq, ← List.singleton_append, ← List.append_nil (List.flatMap _ _ ++ _)]
  refine (rule_alone h₁).andThen fun subject => (rule_narrowable hp).andThen fun path => ?_
  refine Rule.andThen (.inBranch nofun (rule_allArms used (fun hA => hA.1.2.1) (fun hA => hA.2)
    (fun hA => seenAs_of_sees hA.1.2.2.2 hA.2) h₂ h₃ hx)) fun r => ?_
  refine (rule_joinBranches fun hA o ho => ?_).andThen fun _ => ?_
  · obtain ⟨-, ⟨hresults, hlast, -⟩, -⟩ := hA
    rcases List.mem_append.mp ho with ho | ho
    · obtain ⟨q, hq, rfl⟩ := List.mem_map.mp ho
      exact (hresults q hq).1
    · exact List.mem_singleton.mp ho ▸ hlast
  refine Rule.ite (fun _ => rule_branchType span used (fun hA t ht => ?_) hx) fun _ =>
    Rule.pure fun _ => .inl (good_neverIf _)
  obtain ⟨⟨-, ⟨hresults, -, hlastTy⟩, -⟩, -⟩ := hA
  rcases List.mem_append.mp ht with ht | ht
  · obtain ⟨q, hq, rfl⟩ := List.mem_map.mp ht
    exact (hresults q hq).2
  · exact hlastTy t (Option.mem_toList.mp ht)

end TypeFlow
