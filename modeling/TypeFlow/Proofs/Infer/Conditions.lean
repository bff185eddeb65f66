import TypeFlow.Proofs.Flow.Refinement
import TypeFlow.Proofs.Infer.Reading
import TypeFlow.Proofs.Infer.Tree

namespace TypeFlow

namespace Expr

def isCondition : Expr → Bool
  | not _ e => e.isCondition
  | binary _ .and l r | binary _ .or l r => l.isCondition && r.isCondition
  | isTest _ e _ _ | noneCheck _ e _ => e.path?.isSome
  | _ => false

def Holds (c : BodyContext) (ρ : Valuation) : Expr → Prop
  | not _ e => ¬ e.Holds c ρ
  | binary _ .and l r => l.Holds c ρ ∧ r.Holds c ρ
  | binary _ .or l r => l.Holds c ρ ∨ r.Holds c ρ
  | isTest _ e w negated =>
    (∃ p t, e.path? = some p ∧ c.registry.resolve c.generics w = .ok t ∧
      c.registry.Inhabits (ρ.tag p) t) ↔ negated = false
  | noneCheck _ e negated => (∃ p, e.path? = some p ∧ ρ.tag p = none) ↔ negated = false
  | _ => False

end Expr

namespace Registry

variable {r : Registry} {t target : Ty}

theorem plain_of_canHold (ht : t.Plain) (h : r.canHold t target = true) : target.Plain := by
  unfold canHold at h
  rcases Bool.or_eq_true_iff.mp h with h | h
  · exact eq_of_beq h ▸ ht
  · split at h
    · unfold implements at h
      split at h
      · exact Ty.plain_named _ _
      · cases h
    · exact ht.member _ (List.contains_iff_mem.mp h)
    · cases h

theorem regular_of_canHold (ht : t.Testable) (h : r.canHold t target = true) :
    target.Plain ∨ target = t := by
  rcases ht with ht | ⟨u, rfl, -⟩
  · exact .inl (plain_of_canHold ht h)
  · exact .inr (by simpa [canHold] using h)

end Registry

theorem Ty.Testable.plain_of_isOpen {t : Ty} (h : t.Testable) (k : t.isOpen = true) : t.Plain := by
  refine h.plain ?_
  cases t <;> first | rfl | cases k

namespace Infer

variable {c : BodyContext} {σ : Scope} {φ : FlowStack} {ρ : Valuation} {ps : List Path}

theorem sees_narrowingOf (path : Option (Path × Ty)) :
    Sees c σ φ (fun _ => True) (narrowingOf path) := by
  unfold narrowingOf
  split
  · exact (sees_narrowing _).trivial
  · exact .pure True.intro

theorem sees_typeTest (subject : Ty) (path : Option (Path × Ty)) (target : Ty) (span : Span) :
    Sees c σ φ (fun b => b = true → subject.isError = false ∧ target.isError = false ∧
        c.registry.canHold (if subject.isOpen then subject else (path.map (·.2)).getD subject) target)
      (typeTest subject path target span) := by
  unfold typeTest
  refine .ite (fun _ => .pure nofun) fun herror => (sees_narrowingOf path).bind fun o _ => ?_
  obtain ⟨hsubject, htarget⟩ : subject.isError = false ∧ target.isError = false := by simpa using herror
  cases o.filter (·.rulesOut target) with
  | some n => exact (sees_report _ _).discard.bind fun _ _ => .pure nofun
  | none =>
    refine sees_registry.bind fun r hr => ?_
    subst hr
    refine .ite (fun h => .pure fun _ => ⟨hsubject, htarget, h⟩) fun _ => ?_
    exact (sees_report _ _).discard.bind fun _ _ => .pure nofun

theorem regular_target {p : Path} {d subject target : Ty} (hl : φ.top.Regular ps) (hp : p ∈ ps)
    (hd : d.Testable) (hread : Reads c.registry σ φ.top p subject)
    (hdecl : declaredAt c.registry σ φ.top p = some d) (herror : subject.isError = false)
    (h : c.registry.canHold (if subject.isOpen then subject else d) target = true) :
    target.Plain ∨ target = d := by
  split at h
  · next hopen =>
    refine .inl (Registry.plain_of_canHold ?_ h)
    rcases hread with rfl | hread
    · cases herror
    · have hsubject := hread d hdecl
      unfold Layer.narrowed at hsubject
      cases hn : φ.top.get p with
      | none =>
        rw [hn] at hsubject
        subst hsubject
        exact hd.plain_of_isOpen hopen
      | some n =>
        rw [hn] at hsubject
        subst hsubject
        obtain ⟨hreg, htest⟩ := hl _ (mem_of_lookup hn)
        rcases hreg with hreg | hreg
        · exact hreg
        · exact (hreg ▸ htest hp : n.ty.Testable).plain_of_isOpen hopen
  · exact Registry.regular_of_canHold hd h

structure Proves (c : BodyContext) (ρ : Valuation) (ps : List Path) (l : Layer) (P : Prop)
    (fs : List FlowFact) : Prop where
  holds : P → ∀ f ∈ fs, f.fact.Holds c.registry (ρ.tag f.path)
  regular : l.Regular ps → (∀ f ∈ fs, f.declared.Testable) → ∀ f ∈ fs, f.Regular

structure Decides (c : BodyContext) (ρ : Valuation) (ps : List Path) (l : Layer) (P : Prop)
    (fs : Facts) : Prop where
  whenTrue : Proves c ρ ps l P fs.whenTrue
  whenFalse : Proves c ρ ps l (¬ P) fs.whenFalse

variable {P Q : Prop} {l : Layer}

theorem proves_nil : Proves c ρ ps l P [] := ⟨nofun, nofun⟩

theorem decides_empty : Decides c ρ ps l P {} := ⟨proves_nil, proves_nil⟩

theorem Proves.imp {fs : List FlowFact} (h : Proves c ρ ps l P fs) (k : Q → P) :
    Proves c ρ ps l Q fs := ⟨fun hq => h.holds (k hq), h.regular⟩

theorem Proves.append {fs gs : List FlowFact} (hf : Proves c ρ ps l P fs)
    (hg : Proves c ρ ps (l.applyAll c.registry fs) Q gs) : Proves c ρ ps l (P ∧ Q) (fs ++ gs) where
  holds h := List.forall_mem_append.mpr ⟨hf.holds h.1, hg.holds h.2⟩
  regular hl hd := by
    obtain ⟨hd₁, hd₂⟩ := List.forall_mem_append.mp hd
    have hfs := hf.regular hl hd₁
    exact List.forall_mem_append.mpr ⟨hfs, hg.regular (hl.applyAll hfs) hd₂⟩

theorem Decides.swap {fs : Facts} (h : Decides c ρ ps l P fs) : Decides c ρ ps l (¬ P) fs.swap :=
  ⟨h.whenFalse, h.whenTrue.imp Classical.not_not.mp⟩

theorem proves_single {p : Path} {d : Ty} {f : Fact} (hf : P → f.Holds c.registry (ρ.tag p))
    (hr : l.Regular ps → d.Testable → ∀ t, f = .is t → t.Plain ∨ t = d) :
    Proves c ρ ps l P [⟨p, d, f⟩] where
  holds h := List.forall_mem_singleton.mpr (hf h)
  regular hl hd := by
    have htest := List.forall_mem_singleton.mp hd
    exact List.forall_mem_singleton.mpr ⟨htest, hr hl htest⟩

theorem decides_factsOf {p : Path} {o : Option Ty} {f g : Fact}
    (hf : P → f.Holds c.registry (ρ.tag p)) (hg : ¬ P → g.Holds c.registry (ρ.tag p))
    (hfr : ∀ d, o = some d → l.Regular ps → d.Testable → ∀ t, f = .is t → t.Plain ∨ t = d)
    (hgr : ∀ t, g ≠ .is t) : Decides c ρ ps l P (factsOf (o.map fun d => (p, d)) f g) := by
  cases o with
  | none => exact decides_empty
  | some d =>
    exact ⟨proves_single hf (hfr d rfl), proves_single hg fun _ _ t ht => absurd ht (hgr t)⟩

theorem sees_operand {e : Expr} {p : Path} (hp : e.path? = some p) :
    Sees c σ φ (Reads c.registry σ φ.top p) (e.asChild.infer none) :=
  (sees_path hp none true).bind fun _ ht => .pure ht

theorem sees_narrowableChild {e : Expr} {p : Path} (hp : e.path? = some p) :
    Sees c σ φ (· = (declaredAt c.registry σ φ.top p).map fun d => (p, d))
      (narrowableChild e.asChild) := by
  have hpath : e.asChild.path? = some p := hp
  unfold narrowableChild
  rw [hpath]
  exact sees_narrowable (some p)

theorem sees_isTest (span : Span) {e : Expr} {p : Path} (w : Written) (hp : e.path? = some p)
    (hps : p ∈ ps) :
    Sees c σ φ
      (Decides c ρ ps φ.top (∃ p t, e.path? = some p ∧ c.registry.resolve c.generics w = .ok t ∧
        c.registry.Inhabits (ρ.tag p) t))
      (isTest span e.asChild w) := by
  unfold isTest
  refine (sees_operand hp).bind fun subject hread => (sees_resolveType w span).bind fun target hw => ?_
  refine (sees_narrowableChild hp).bind fun path hpath => ?_
  subst hpath
  refine (sees_typeTest _ _ _ _).bind fun b hb => .ite (fun htrue => .pure ?_) fun _ => .pure decides_empty
  obtain ⟨hsubject, htarget, hcan⟩ := hb htrue
  have hresolve : c.registry.resolve c.generics w = .ok target := by
    rcases hw with rfl | hw
    · cases htarget
    · exact hw
  refine decides_factsOf ?_ ?_ ?_ nofun
  · rintro ⟨q, t, hq, ht, hinh⟩
    cases hp.symm.trans hq
    cases hresolve.symm.trans ht
    exact hinh
  · exact fun hnot hinh => hnot ⟨p, target, hp, hresolve, hinh⟩
  · rintro d hdecl hl htest _ ⟨⟩
    rw [hdecl] at hcan
    exact regular_target hl hps htest hread hdecl hsubject hcan

theorem sees_noneCheck (span : Span) {e : Expr} {p : Path} (hp : e.path? = some p) :
    Sees c σ φ (Decides c ρ ps φ.top (∃ p, e.path? = some p ∧ ρ.tag p = none))
      (noneCheck span e.asChild) := by
  unfold noneCheck
  refine (sees_operand hp).bind fun subject _ => .ite (fun _ => .pure decides_empty) fun _ => ?_
  split
  · exact (sees_report _ _).discard.bind fun _ _ => .pure decides_empty
  · refine (sees_narrowableChild hp).bind fun path hpath => .pure ?_
    subst hpath
    refine decides_factsOf ?_ ?_ nofun nofun
    · rintro ⟨q, hq, hnone⟩
      cases hp.symm.trans hq
      exact hnone
    · exact fun hnot hnone => hnot ⟨p, hp, hnone⟩

theorem sees_negatedIf {x : Infer Facts} (b : Bool) (h : Sees c σ φ (Decides c ρ ps φ.top P) x) :
    Sees c σ φ (Decides c ρ ps φ.top (P ↔ b = false)) (negatedIf b x) := by
  refine h.bind fun fs hfs => .pure ?_
  cases b with
  | true => simpa using hfs.swap
  | false => simpa using hfs

def Checks (c : BodyContext) (σ : Scope) (ρ : Valuation) (ps : List Path) (P : Prop) (ch : Child) : Prop :=
  ∀ φ, Sees c σ φ (Decides c ρ ps φ.top P) (condition ch)

theorem sees_negation {ch : Child} (h : Checks c σ ρ ps P ch) :
    Sees c σ φ (Decides c ρ ps φ.top (¬ P)) (negation ch) := (h φ).bind fun _ hf => .pure hf.swap

theorem sees_conjunction {left right : Child} (hl : Checks c σ ρ ps P left)
    (hr : Checks c σ ρ ps Q right) :
    Sees c σ φ (Decides c ρ ps φ.top (P ∧ Q)) (conjunction left right) := by
  rw [conjunction_eq]
  refine (hl φ).bind fun fs hfs => (sees_inBranch (hr _)).bind fun r hr => .pure ?_
  exact ⟨hfs.whenTrue.append hr.whenTrue, proves_nil⟩

theorem sees_disjunction {left right : Child} (hl : Checks c σ ρ ps P left)
    (hr : Checks c σ ρ ps Q right) :
    Sees c σ φ (Decides c ρ ps φ.top (P ∨ Q)) (disjunction left right) := by
  rw [disjunction_eq]
  refine (hl φ).bind fun fs hfs => (sees_inBranch (hr _)).bind fun r hr => .pure ?_
  exact ⟨proves_nil, (hfs.whenFalse.append hr.whenFalse).imp not_or.mp⟩

theorem checks_visit {e : Expr} {site : Site} {x : Infer Facts}
    (he : ∀ y used, e.infer y used = visit site (proving x))
    (h : ∀ φ, Sees c σ φ (Decides c ρ ps φ.top P) x) : Checks c σ ρ ps P e.asChild := by
  intro φ
  have hrun : Sees c σ φ (fun t => Decides c ρ ps φ.top P t.facts)
      (e.asChild.run (some (.prim .bool)) true) := by
    show Sees c σ φ (fun t => Decides c ρ ps φ.top P t.facts) (e.infer (some (.prim .bool)) true)
    rw [he]
    exact sees_visit site ((h φ).bind fun _ hf => .pure hf) decides_empty fun _ ht => ht
  exact hrun.bind fun t ht => (sees_requireAssignable _ _ _).bind fun _ _ => .pure ht

-- The second operand is checked in a layer that the first has changed, so the induction is over all
-- layers at once.
theorem checks_condition {e : Expr} (he : e.isCondition = true) (hps : ∀ p ∈ e.tested, p ∈ ps) :
    Checks c σ ρ ps (e.Holds c ρ) e.asChild := by
  induction e using Expr.isCondition.induct with
  | case1 s e ih => exact checks_visit (fun _ _ => rfl) fun φ => sees_negation (ih he hps)
  | case2 s l r ihl ihr =>
    obtain ⟨hl, hr⟩ := Bool.and_eq_true_iff.mp he
    obtain ⟨hpl, hpr⟩ := List.forall_mem_append.mp hps
    exact checks_visit (fun _ _ => rfl) fun φ => sees_conjunction (ihl hl hpl) (ihr hr hpr)
  | case3 s l r ihl ihr =>
    obtain ⟨hl, hr⟩ := Bool.and_eq_true_iff.mp he
    obtain ⟨hpl, hpr⟩ := List.forall_mem_append.mp hps
    exact checks_visit (fun _ _ => rfl) fun φ => sees_disjunction (ihl hl hpl) (ihr hr hpr)
  | case4 s e w b =>
    obtain ⟨p, hp⟩ := Option.isSome_iff_exists.mp he
    have hmem : p ∈ ps := hps p (by simp [Expr.tested, hp])
    exact checks_visit (fun _ _ => rfl) fun φ => sees_negatedIf b (sees_isTest s.span w hp hmem)
  | case5 s e b =>
    obtain ⟨p, hp⟩ := Option.isSome_iff_exists.mp he
    exact checks_visit (fun _ _ => rfl) fun φ => sees_negatedIf b (sees_noneCheck s.span hp)
  | case6 e h₁ h₂ h₃ h₄ h₅ =>
    rw [Expr.isCondition.eq_6 e h₁ h₂ h₃ h₄ h₅] at he
    cases he

end Infer

end TypeFlow
