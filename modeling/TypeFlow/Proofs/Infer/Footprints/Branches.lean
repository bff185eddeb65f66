import TypeFlow.Proofs.Infer.Footprints.Calls

namespace TypeFlow

def Expr.assigned (target : Expr) : List Path :=
  match target.path? with
  | some p => [p]
  | none =>
    match target.writeRoot with
    | .ident _ x => [⟨x, []⟩]
    | _ => []

theorem Expr.writeRoot_of_path? {e : Expr} {p : Path} (h : e.path? = some p) :
    ∃ s, e.writeRoot = .ident s p.root := by
  induction e using Expr.path?.induct generalizing p with
  | case1 s x =>
    cases h
    exact ⟨s, rfl⟩
  | case2 s e x ih =>
    obtain ⟨q, hq, rfl⟩ := Option.map_eq_some_iff.mp h
    obtain ⟨t, ht⟩ := ih hq
    exact ⟨t, ht⟩
  | case3 e hident hfield =>
    unfold path? at h
    split at h <;> simp_all

def ArmChild.Treads (c : BodyContext) (F : Footprint) (arm : ArmChild) : Prop :=
  (∀ ch, arm.pattern = .value ch → ch.Treads c F) ∧ arm.body.Treads c F

def StmtChild.Treads (c : BodyContext) (F : Footprint) : StmtChild → Prop
  | .bind _ name _ _ init => init.Treads c F ∧ F.binds name
  | .assign _ target value => target.Treads c F ∧ value.Treads c F ∧ ∀ p ∈ target.expr.assigned, F.writes p
  | .expr value => value.Treads c F

namespace Infer

variable {c : BodyContext} {F : Footprint} {x : Option Ty} {test thenBranch elseBranch body : Child}
  {α : Type}

theorem treads_branchType (span : Span) (ts : List Ty) (x : Option Ty) (used : Bool) :
    Inside c F (branchType span ts x used) := by
  refine .ite (fun _ => Treads.context.andThen fun d => ?_) fun _ => .done _
  cases d.joinArms ts x with
  | ok t => exact .done t
  | error e => exact (Treads.report span _).trivial

theorem treads_elseArm (h : elseBranch.Treads c F) (x : Option Ty) (used : Bool) :
    Inside c F (elseArm elseBranch x used) :=
  .ite (fun _ => treads_inferIn h x used) fun _ => .done _

theorem treads_twoArms (span : Span) (t u : Ty) (hasElse : Bool) (x : Option Ty) (used : Bool) :
    Inside c F (twoArms span t u hasElse x used) :=
  .ite (fun _ => treads_branchType _ _ _ _) fun _ => .done _

theorem treads_secondArm (span : Span) {fs : List FlowFact} {first : Ty × Layer} (x : Option Ty) (used : Bool)
    (hf : ∀ f ∈ fs, F.tests f.path) (hfirst : F.layers first.2) (h : elseBranch.Treads c F) :
    Inside c F (do
      let second ← inBranch fs (elseArm elseBranch x used)
      joinBranches [⟨first.2, first.1.isNever⟩, ⟨second.2, second.1.isNever⟩]
      twoArms span first.1 second.1 elseBranch.expr.isPresent x used) := by
  refine (Treads.inBranch hf (treads_elseArm h x used)).bind fun second hsecond => ?_
  refine (Treads.joinBranches ?_).andThen fun _ => treads_twoArms _ _ _ _ _ _
  exact List.forall_mem_cons.mpr ⟨hfirst, List.forall_mem_singleton.mpr hsecond.2⟩

theorem treads_cond (span : Span) (h₁ : test.Treads c F) (h₂ : thenBranch.Treads c F)
    (h₃ : elseBranch.Treads c F) (x : Option Ty) (used : Bool) :
    Inside c F (cond span test thenBranch elseBranch x used) := by
  rw [cond_eq]
  refine (treads_condition h₁).bind fun facts hfacts => ?_
  refine (Treads.inBranch hfacts.whenTrue (treads_inferIn h₂ x used)).bind fun first hfirst => ?_
  exact treads_secondArm span x used hfacts.whenFalse hfirst.2 h₃

theorem treads_guardPayload (value : Child) (t : Ty) : Inside c F (guardPayload value t) := by
  unfold guardPayload
  split
  · exact .done _
  · exact .done _
  · exact (Treads.report _ _).trivial

theorem treads_guardBind (span : Span) {name : String} (hn : F.binds name) (h₁ : test.Treads c F)
    (ht : test.MayTest F) (h₂ : thenBranch.Treads c F) (h₃ : elseBranch.Treads c F) (x : Option Ty) (used : Bool) :
    Inside c F (guardBind span name test thenBranch elseBranch x used) := by
  rw [guardBind_eq]
  refine (treads_infer h₁ none).andThen fun t => (treads_guardPayload test t).andThen fun payload => ?_
  refine (treads_narrowableChild ht).bind fun path hpath => ?_
  have hfacts : F.Allows (factsOf path .notNone .isNone) := Footprint.allows_factsOf hpath _ _
  have hthen : Inside c F (inScope do
      bindLocal name payload false
      thenBranch.inferIn x used) :=
    .inScope ((Treads.bindLocal _ _ hn).andThen fun _ => treads_inferIn h₂ x used)
  refine (Treads.inBranch hfacts.whenTrue hthen).bind fun first hfirst => ?_
  exact treads_secondArm span x used hfacts.whenFalse hfirst.2 h₃

variable {arms : List ArmChild} {path : Option (Path × Ty)}

theorem treads_armPattern (subject : Ty) (path : Option (Path × Ty)) {arm : ArmChild} (h : arm.Treads c F) :
    Inside c F (armPattern subject path arm) := by
  unfold armPattern
  split
  · next ch hch =>
    refine (treads_infer (h.1 ch hch) _).andThen fun t => ?_
    refine (treads_assignable _ _).andThen fun a => (treads_assignable _ _).andThen fun b => ?_
    exact .ite (fun _ => .done _) fun _ => (treads_fault _ _).andThen fun _ => .done _
  · refine (treads_resolveType _ _).andThen fun t => (treads_typeTest _ _ _ _).andThen fun b => .done _

theorem tests_armFact (h : ∀ q, path = some q → F.tests q.1) (target : Option Ty) (fact : Ty → Fact) :
    ∀ f ∈ armFact path target fact, F.tests f.path := by
  unfold armFact
  split
  · exact List.forall_mem_singleton.mpr (h _ rfl)
  · exact nofun

theorem treads_arms (subject : Ty) (hp : ∀ q, path = some q → F.tests q.1) (h : ∀ a ∈ arms, a.Treads c F)
    (x : Option Ty) (used : Bool) :
    Treads c F (Infer.arms subject path x used arms) fun rs => ∀ r ∈ rs, F.layers r.1.layer := by
  induction arms with
  | nil => exact .pure nofun
  | cons arm rest ih =>
    obtain ⟨harm, hrest⟩ := List.forall_mem_cons.mp h
    rw [arms_cons]
    refine (treads_armPattern subject path harm).andThen fun target => ?_
    refine (Treads.inBranch (tests_armFact hp target .is) (treads_inferIn harm.2 x used)).bind fun r hr => ?_
    refine (Treads.applyFacts (tests_armFact hp target .isNot)).andThen fun _ => ?_
    exact (ih hrest).map fun rs hrs => List.forall_mem_cons.mpr ⟨hr.2, hrs⟩

theorem treads_lastArm (path : Option (Path × Ty)) (h : elseBranch.Treads c F) (x : Option Ty) (used : Bool) :
    Treads c F (lastArm path elseBranch x used) fun r => F.layers r.1.layer := by
  rw [lastArm_eq]
  refine .ite (fun _ => ?_) fun _ => ?_
  · exact (Treads.inBranch (List.forall_mem_nil _) (treads_inferIn h x used)).map fun _ hr => hr.2
  · refine (treads_narrowingOf path).andThen fun known => .look (fun s t h => ?_) fun _ h => h
    rw [h.layer]

theorem treads_matchOn (span : Span) (h₁ : test.Treads c F) (ht : test.MayTest F)
    (h₂ : ∀ a ∈ arms, a.Treads c F) (h₃ : elseBranch.Treads c F) (x : Option Ty) (used : Bool) :
    Inside c F (matchOn span test arms elseBranch x used) := by
  rw [matchOn_eq]
  refine (treads_infer h₁ none).andThen fun subject => (treads_narrowableChild ht).bind fun path hpath => ?_
  have harms : Treads c F (do
      let results ← Infer.arms subject path x used arms
      let last ← lastArm path elseBranch x used
      return (results, last)) fun r => (∀ o ∈ r.1, F.layers o.1.layer) ∧ F.layers r.2.1.layer :=
    (treads_arms subject hpath h₂ x used).bind fun results hresults =>
      (treads_lastArm path h₃ x used).map fun last hlast => ⟨hresults, hlast⟩
  refine (Treads.inBranch (List.forall_mem_nil _) harms).bind fun r hr => ?_
  obtain ⟨⟨hresults, hlast⟩, -⟩ := hr
  extract_lets outcomes
  refine (Treads.joinBranches ?_).andThen fun _ => .ite (fun _ => treads_branchType _ _ _ _) fun _ => .done _
  exact List.forall_mem_append.mpr ⟨List.forall_mem_map.mpr hresults, List.forall_mem_singleton.mpr hlast⟩

theorem treads_bindStmt (span : Span) {name : String} (m : Bool) (w : Option Written) (h : body.Treads c F)
    (hn : F.binds name) : Inside c F (bindStmt span name m w body) := by
  have hbound (t u : Ty) : Inside c F (do
      bindLocal name t m
      return if u.isNever then Ty.never else .unit) := (Treads.bindLocal t m hn).andThen fun _ => .done _
  unfold bindStmt
  split
  · refine (treads_resolveType _ span).andThen fun t => .ite (fun _ => ?_) fun _ => ?_
    · exact (treads_infer h none).andThen fun u => hbound t u
    · exact (treads_check h t).andThen fun u => hbound t u
  · refine (treads_infer h none).andThen fun t => .ite (fun _ => ?_) fun _ => hbound t t
    exact (Treads.report body.span _).andThen fun u => hbound u t

theorem treads_writeThrough (root : Expr) (span : Span)
    (h : ∀ s x, root = .ident s x → F.writes ⟨x, []⟩) : Inside c F (writeThrough root span) := by
  unfold writeThrough
  split
  · refine (treads_lookupLocal _).andThen fun o => ?_
    split
    · exact treads_write span (h _ _ rfl)
    · refine treads_registry.andThen fun r => .ite (fun _ => ?_) fun _ => .done _
      exact treads_fault span _
  · exact .done _

def reportConstant (name : String) (span : Span) : Infer Unit := do
  if ((← registry).constant name).isSome then discard <| report span (.assignToImmutable name)

theorem treads_reportConstant (name : String) (span : Span) : Inside c F (reportConstant name span) :=
  treads_registry.andThen fun _ => .ite (fun _ => treads_fault span _) fun _ => .done _

theorem localPath_orElse (p : Path) (s : Site) (span : Span) (found : Path → Infer α) (rest : Infer α) :
    (do
      match ← localPath (some p) with
      | some q => found q
      | none => do
        writeThrough (.ident s p.root) span
        rest) = (do
      match ← lookupLocal p.root with
      | some _ => found p
      | none => do
        reportConstant p.root span
        rest) := by
  funext d t
  have hlocal (k : Option Path → Infer α) :
      (localPath (some p) >>= k) d t = k ((t.scope.lookup p.root).map fun _ => p) d t := rfl
  have hlookup (k : Option Local → Infer α) :
      (lookupLocal p.root >>= k) d t = k (t.scope.lookup p.root) d t := rfl
  have hthrough : writeThrough (.ident s p.root) span = (do
    match ← lookupLocal p.root with
    | some _ => write ⟨p.root, []⟩ span
    | none => reportConstant p.root span) := rfl
  rw [hlocal, hlookup]
  cases hroot : t.scope.lookup p.root with
  | some l => rfl
  | none =>
    rw [Option.map_none, hthrough]
    dsimp only
    rw [bind_assoc, hlookup, hroot]

def assignPath (p : Path) (span : Span) (value : Child) : Infer Unit := do
  requireMutable p span
  match ← declaredType p with
  | some declared => discard <| check value declared
  | none => discard <| value.infer none
  overwrite p

def assignPlace (t : Ty) (value : Child) : Infer Unit :=
  if t.isError then discard <| value.infer none else discard <| check value t

theorem assignStmt_eq (span : Span) (target value : Child) :
    assignStmt span target value = (do
      let t ← target.infer none
      match ← localPath target.expr.path? with
      | some p => assignPath p span value
      | none => do
        writeThrough target.expr.writeRoot span
        assignPlace t value) := rfl

theorem treads_assignPath {p : Path} (span : Span) (h : body.Treads c F) (hp : F.writes p) :
    Inside c F (assignPath p span body) := by
  refine (treads_requireMutable p span).andThen fun _ => (treads_declaredType p).andThen fun o => ?_
  extract_lets last
  split
  · exact (treads_check h _).discard.andThen fun _ => .overwrite hp
  · exact (treads_infer h none).discard.andThen fun _ => .overwrite hp

theorem treads_assignPlace (t : Ty) (h : body.Treads c F) : Inside c F (assignPlace t body) :=
  .ite (fun _ => (treads_infer h none).discard) fun _ => (treads_check h t).discard

theorem treads_assignStmt (span : Span) {target value : Child} (ht : target.Treads c F) (hv : value.Treads c F)
    (hw : ∀ p ∈ target.expr.assigned, F.writes p) : Inside c F (assignStmt span target value) := by
  rw [assignStmt_eq]
  refine (treads_infer ht none).andThen fun t => ?_
  unfold Expr.assigned at hw
  cases hpath : target.expr.path? with
  | none =>
    rw [hpath] at hw
    refine (treads_writeThrough _ span fun s x hroot => ?_).andThen fun _ => treads_assignPlace t hv
    exact hw _ (by rw [hroot]; exact List.mem_singleton_self _)
  | some p =>
    rw [hpath] at hw
    obtain ⟨s, hroot⟩ := Expr.writeRoot_of_path? hpath
    rw [hroot, localPath_orElse]
    refine (treads_lookupLocal p.root).andThen fun o => ?_
    split
    · exact treads_assignPath span hv (hw p (List.mem_singleton_self p))
    · exact (treads_reportConstant _ span).andThen fun _ => treads_assignPlace t hv

theorem treads_invalidateAll {ps : List Path} (h : ∀ p ∈ ps, F.writes p) : Inside c F (invalidateAll ps) := by
  induction ps with
  | nil => exact .done _
  | cons p ps ih =>
    obtain ⟨hp, hps⟩ := List.forall_mem_cons.mp h
    exact (Treads.invalidate hp).andThen fun _ => ih hps

theorem treads_stmt {st : StmtChild} (h : st.Treads c F) : Inside c F (stmt st) := by
  cases st with
  | bind span name m w init => exact treads_bindStmt span m w h.1 h.2
  | assign span target value => exact (treads_assignStmt span h.1 h.2.1 h.2.2).andThen fun _ => .done _
  | expr value => exact treads_inferIn h none false

theorem treads_stmts {sts : List StmtChild} (h : ∀ st ∈ sts, st.Treads c F) : Inside c F (stmts sts) := by
  induction sts with
  | nil => exact .done _
  | cons st sts ih =>
    obtain ⟨hst, hsts⟩ := List.forall_mem_cons.mp h
    refine (treads_stmt hst).andThen fun t => treads_isAborted.andThen fun b => .ite (fun _ => .done _) fun _ => ?_
    exact (ih hsts).andThen fun _ => .done _

theorem treads_block {sts : List StmtChild} (h : ∀ st ∈ sts, st.Treads c F) (hr : body.Treads c F)
    (x : Option Ty) (used : Bool) : Inside c F (block sts body x used) := by
  rw [block_eq]
  refine Treads.map (Q := fun _ => True) (.inScope ?_) fun _ _ => True.intro
  exact (treads_stmts h).andThen fun _ => (treads_elseArm hr x used).andThen fun _ => .done _

theorem treads_returned (span : Span) (h : body.Treads c F) : Inside c F (returned span body) := by
  refine Treads.context.andThen fun d => .ite (fun _ => ?_) fun _ => ?_
  · exact (treads_check h _).discard.andThen fun _ => .done _
  · exact .ite (fun _ => .done _) fun _ => (treads_fault span _).andThen fun _ => .done _

theorem treads_loop (h₁ : test.Treads c F) (h₂ : body.Treads c F.looped)
    (hw : ∀ p ∈ body.expr.written c.registry, F.writes p) : Inside c F (loop test body) := by
  rw [loop_eq]
  refine treads_registry.bind fun r hr => ?_
  subst hr
  refine (treads_invalidateAll hw).andThen fun _ => (treads_condition h₁).bind fun facts hfacts => ?_
  refine (Treads.inBranch hfacts.whenTrue (.inLoop (treads_inferIn h₂ none false))).discard.andThen fun _ => ?_
  refine .ite (fun _ => .done _) fun _ => .ite (fun _ => ?_) fun _ => .done _
  exact (Treads.applyFacts hfacts.whenFalse).andThen fun _ => .done _

end Infer

end TypeFlow
