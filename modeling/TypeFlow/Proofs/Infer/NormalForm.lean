import TypeFlow.Proofs.Infer.Forgetting
import TypeFlow.Proofs.Infer.Parallel
import TypeFlow.Proofs.Typing.Assign

namespace TypeFlow

namespace Expr

def normalForm (sites : List Bool → Site) (negated : Bool) : Expr → Expr
  | not _ e => e.normalForm sites (!negated)
  | binary _ .and l r =>
    binary (sites []) (if negated then .or else .and) (l.normalForm (fun w => sites (false :: w)) negated)
      (r.normalForm (fun w => sites (true :: w)) negated)
  | binary _ .or l r =>
    binary (sites []) (if negated then .and else .or) (l.normalForm (fun w => sites (false :: w)) negated)
      (r.normalForm (fun w => sites (true :: w)) negated)
  | isTest s e ty n => isTest s e ty (n ^^ negated)
  | noneCheck s e n => noneCheck s e (n ^^ negated)
  | e => if negated then not (sites []) e else e

def connectives : Expr → List Nat
  | not s e => s.id :: e.connectives
  | binary s .and l r | binary s .or l r => s.id :: (l.connectives ++ r.connectives)
  | _ => []

def isPlain : Expr → Bool
  | not _ _ | binary _ .and _ _ | binary _ .or _ _ | isTest _ _ _ _ | noneCheck _ _ _ => false
  | _ => true

def isNormal : Expr → Bool
  | not _ e => e.isPlain
  | binary _ .and l r | binary _ .or l r => l.isNormal && r.isNormal
  | _ => true

def leaves : Expr → List Expr
  | not _ e => e.leaves
  | binary _ .and l r | binary _ .or l r => l.leaves ++ r.leaves
  | isTest s e ty _ => [isTest s e ty false]
  | noneCheck s e _ => [noneCheck s e false]
  | e => [e]

theorem isNormal_of_isPlain {e : Expr} (h : e.isPlain = true) : e.isNormal = true := by
  unfold isNormal
  split <;> first | rfl | cases h

theorem normalForm_of_isPlain {e : Expr} (h : e.isPlain = true) (sites : List Bool → Site) (negated : Bool) :
    e.normalForm sites negated = if negated then not (sites []) e else e := by
  unfold normalForm
  split <;> first | rfl | cases h

theorem condition_induction {motive : Expr → Prop} (not : ∀ s e, motive e → motive (not s e))
    (and : ∀ s l r, motive l → motive r → motive (binary s .and l r))
    (or : ∀ s l r, motive l → motive r → motive (binary s .or l r))
    (isTest : ∀ s e ty n, motive (isTest s e ty n)) (noneCheck : ∀ s e n, motive (noneCheck s e n))
    (plain : ∀ e, e.isPlain = true → motive e) (e : Expr) : motive e :=
  leaves.induct motive not and or isTest noneCheck
    (fun e h₁ h₂ h₃ h₄ h₅ => plain e (isPlain.eq_6 e h₁ h₂ h₃ h₄ h₅)) e

theorem isNormal_normalForm (sites : List Bool → Site) (negated : Bool) (e : Expr) :
    (e.normalForm sites negated).isNormal = true := by
  induction e using condition_induction generalizing sites negated with
  | not s e ih => exact ih sites !negated
  | and s l r ihl ihr => cases negated <;> exact Bool.and_eq_true_iff.mpr ⟨ihl _ _, ihr _ _⟩
  | or s l r ihl ihr => cases negated <;> exact Bool.and_eq_true_iff.mpr ⟨ihl _ _, ihr _ _⟩
  | isTest | noneCheck => rfl
  | plain e he =>
    rw [normalForm_of_isPlain he]
    split
    · exact he
    · exact isNormal_of_isPlain he

theorem leaves_normalForm (sites : List Bool → Site) (negated : Bool) (e : Expr) :
    (e.normalForm sites negated).leaves = e.leaves := by
  induction e using condition_induction generalizing sites negated with
  | not s e ih => exact ih sites !negated
  | and s l r ihl ihr => cases negated <;> exact congrArg₂ (· ++ ·) (ihl _ _) (ihr _ _)
  | or s l r ihl ihr => cases negated <;> exact congrArg₂ (· ++ ·) (ihl _ _) (ihr _ _)
  | isTest | noneCheck => rfl
  | plain e he =>
    rw [normalForm_of_isPlain he]
    split <;> rfl

end Expr

namespace Infer

variable {c : BodyContext} {hidden : List Nat} {s : BodyState} {R : Facts → Facts → Prop} {x y z : Infer Facts}

def Idle (c : BodyContext) (x : Infer Facts) : Prop :=
  ∀ s : BodyState, s.aborted = true → x.value c s = {} ∧ x.after c s = s

def Decided (c : BodyContext) (hidden : List Nat) (x y : Infer Facts) : Prop :=
  ∀ s, x.value c s = y.value c s ∧ (y.after c s).SameOutside hidden (x.after c s)

theorem Parallel.of_decided_left (h : Decided c hidden x y) (k : Parallel c hidden R y z) :
    Parallel c hidden R x z := by
  intro s t hst
  obtain ⟨hvalue, hafter⟩ := k s t hst
  exact ⟨(h s).1 ▸ hvalue, (h s).2.symm.trans hafter⟩

theorem Parallel.of_decided_right (h : Decided c hidden z y) (k : Parallel c hidden R x y) :
    Parallel c hidden R x z := by
  intro s t hst
  obtain ⟨hvalue, hafter⟩ := k s t hst
  exact ⟨(h t).1 ▸ hvalue, hafter.trans (h t).2⟩

theorem after_requireAssignable_of_aborted (span : Span) (t u : Ty) (h : s.aborted = true) :
    (requireAssignable span t u).after c s = s := by
  rw [after_requireAssignable, h, Bool.true_or, if_pos rfl]

theorem after_requireAssignable_self (span : Span) (t : Ty) (s : BodyState) :
    (requireAssignable span t t).after c s = s := by
  rw [after_requireAssignable, Registry.assignableIn_self, Bool.or_true, if_pos rfl]

theorem facts_infer_of_aborted (e : Expr) (x : Option Ty) (used : Bool) (h : s.aborted = true) :
    ((e.infer x used).value c s).facts = {} := by
  cases e
  case missing => rfl
  case neg site e => cases e <;> exact congrArg Typed.facts (run_visit_of_aborted c site _ h).2
  case binary site op l r => cases op <;> exact congrArg Typed.facts (run_visit_of_aborted c site _ h).2
  all_goals exact congrArg Typed.facts (run_visit_of_aborted c _ _ h).2

theorem idle_condition (e : Expr) : Idle c (condition e.asChild) := by
  intro s hs
  refine ⟨facts_infer_of_aborted e _ _ hs, ?_⟩
  show (requireAssignable _ _ _).after c ((e.infer _ _).after c s) = s
  rw [after_infer_of_aborted e _ _ hs, after_requireAssignable_of_aborted _ _ _ hs]

theorem run_condition_visit {e : Expr} {site : Site}
    (he : e.infer (some (.prim .bool)) true = visit site (proving x)) (hs : s.aborted = false) :
    (condition e.asChild).value c s = x.value c s ∧ (condition e.asChild).after c s =
      if (x.after c s).aborted then x.after c s
      else { x.after c s with types := (site.id, .prim .bool) :: (x.after c s).types } := by
  obtain ⟨hafter, hvalue⟩ := run_visit c site (proving x) hs rfl
  rw [← he] at hafter hvalue
  have hact : (proving x).after c s = x.after c s ∧ (proving x).value c s = ⟨.prim .bool, x.value c s⟩ :=
    ⟨rfl, rfl⟩
  rw [hact.1, hact.2] at hafter hvalue
  constructor
  · show ((e.infer _ _).value c s).facts = _
    rw [hvalue]
    split <;> rfl
  · show (requireAssignable _ _ ((e.infer _ _).value c s).ty).after c ((e.infer _ _).after c s) = _
    rw [hvalue, hafter]
    split
    · next h => exact after_requireAssignable_of_aborted _ _ _ h
    · exact after_requireAssignable_self _ _ _

theorem Idle.decided {e : Expr} {site : Site} (h : Idle c x)
    (he : e.infer (some (.prim .bool)) true = visit site (proving x)) (hsite : site.id ∈ hidden) :
    Decided c hidden (condition e.asChild) x := by
  intro s
  cases hs : s.aborted with
  | true =>
    obtain ⟨hvalue, hafter⟩ := idle_condition (c := c) e s hs
    rw [hvalue, hafter, (h s hs).1, (h s hs).2]
    exact ⟨rfl, .refl s⟩
  | false =>
    obtain ⟨hvalue, hafter⟩ := run_condition_visit (c := c) he hs
    rw [hvalue, hafter]
    refine ⟨rfl, ?_⟩
    split
    · exact .refl _
    · exact .hide hsite _ _

theorem Idle.inBranch (h : Idle c x) (fs : List FlowFact) (hs : s.aborted = true) :
    ((inBranch fs x).value c s).1 = {} ∧ (inBranch fs x).after c s = s := by
  obtain ⟨hvalue, hafter⟩ := h { s with flow := s.flow.push c.registry fs } hs
  obtain ⟨hrun, hresult⟩ := run_inBranch c fs x hafter.symm rfl
  rw [hrun, hresult, hvalue]
  exact ⟨rfl, rfl⟩

def Polar (negated : Bool) (f g : Facts) : Prop := g = if negated then f.swap else f

theorem Polar.not {negated : Bool} {f g : Facts} (h : Polar (!negated) f g) : Polar negated f.swap g := by
  cases negated <;> exact h

def junction (outcome : Bool) : BinaryOp := if outcome then .and else .or

def side (outcome : Bool) (f : Facts) : List FlowFact := if outcome then f.whenTrue else f.whenFalse

def onSide (outcome : Bool) (fs : List FlowFact) : Facts := if outcome then ⟨fs, []⟩ else ⟨[], fs⟩

def logical (outcome : Bool) (l r : Child) : Infer Facts := do
  let f ← condition l
  let g ← inBranch (side outcome f) (condition r)
  return onSide outcome (side outcome f ++ side outcome g.1)

theorem infer_junction (outcome : Bool) (site : Site) (l r : Expr) (x : Option Ty) (used : Bool) :
    (Expr.binary site (junction outcome) l r).infer x used =
      visit site (proving (logical outcome l.asChild r.asChild)) := by
  cases outcome with
  | false => exact congrArg (fun act => visit site (proving act)) (disjunction_eq l.asChild r.asChild)
  | true => exact congrArg (fun act => visit site (proving act)) (conjunction_eq l.asChild r.asChild)

theorem connectives_junction (outcome : Bool) (site : Site) (l r : Expr) :
    (Expr.binary site (junction outcome) l r).connectives = site.id :: (l.connectives ++ r.connectives) := by
  cases outcome <;> rfl

variable {outcome negated : Bool} {f g : Facts}

theorem Polar.side (h : Polar negated f g) : side (outcome ^^ negated) g = side outcome f := by
  subst h
  cases outcome <;> cases negated <;> rfl

theorem polar_onSide (outcome negated : Bool) (fs : List FlowFact) :
    Polar negated (onSide outcome fs) (onSide (outcome ^^ negated) fs) := by
  cases outcome <;> cases negated <;> rfl

theorem idle_logical (outcome : Bool) (l r : Expr) : Idle c (logical outcome l.asChild r.asChild) := by
  intro s hs
  obtain ⟨hvalue, hafter⟩ := idle_condition (c := c) l s hs
  obtain ⟨hbranch, hleft⟩ := (idle_condition (c := c) r).inBranch (side outcome {}) hs
  rw [logical, value_bind, after_bind, hvalue, hafter, value_bind, after_bind, hleft, value_pure, hbranch]
  refine ⟨?_, rfl⟩
  cases outcome <;> rfl

theorem parallel_logical {l r l' r' : Child} (outcome : Bool)
    (hl : Parallel c hidden (Polar negated) (condition l) (condition l'))
    (hr : Parallel c hidden (Polar negated) (condition r) (condition r')) :
    Parallel c hidden (Polar negated) (logical outcome l r) (logical (outcome ^^ negated) l' r') := by
  refine hl.bind fun f g hfg => ?_
  rw [hfg.side]
  refine (hr.inBranch (side outcome f)).bind fun a b hab => parallel_pure ?_
  rw [hab.1.side]
  exact polar_onSide outcome negated _

theorem decided_not (site : Site) (e : Expr) (h : site.id ∈ hidden) :
    Decided c hidden (condition (Expr.not site e).asChild) (negation e.asChild) := by
  refine Idle.decided (fun s hs => ?_) rfl h
  obtain ⟨hvalue, hafter⟩ := idle_condition (c := c) e s hs
  exact ⟨congrArg Facts.swap hvalue, hafter⟩

theorem parallel_junction {site site' : Site} {l r l' r' : Expr} (outcome : Bool)
    (h : (Expr.binary site (junction outcome) l r).connectives ⊆ hidden)
    (h' : (Expr.binary site' (junction (outcome ^^ negated)) l' r').connectives ⊆ hidden)
    (hl : l.connectives ⊆ hidden → l'.connectives ⊆ hidden →
      Parallel c hidden (Polar negated) (condition l.asChild) (condition l'.asChild))
    (hr : r.connectives ⊆ hidden → r'.connectives ⊆ hidden →
      Parallel c hidden (Polar negated) (condition r.asChild) (condition r'.asChild)) :
    Parallel c hidden (Polar negated) (condition (Expr.binary site (junction outcome) l r).asChild)
      (condition (Expr.binary site' (junction (outcome ^^ negated)) l' r').asChild) := by
  rw [connectives_junction, List.cons_subset, List.append_subset] at h h'
  obtain ⟨hsite, hleft, hright⟩ := h
  obtain ⟨hsite', hleft', hright'⟩ := h'
  refine .of_decided_left ((idle_logical outcome l r).decided (infer_junction _ _ _ _ _ _) hsite) ?_
  refine .of_decided_right ((idle_logical _ l' r').decided (infer_junction _ _ _ _ _ _) hsite') ?_
  exact parallel_logical outcome (hl hleft hleft') (hr hright hright')

theorem parallel_condition (c : BodyContext) (hidden : List Nat) (e : Expr) :
    Parallel c hidden Eq (condition e.asChild) (condition e.asChild) :=
  (e.parallel c hidden (some (.prim .bool)) true).bind fun _ _ ht => ht ▸
    ((sequential_parallel c hidden).requireAssignable _ _ _).bind fun _ _ _ => parallel_pure rfl

theorem run_opposite {e d : Expr} {site : Site} {n : Bool}
    (he : e.infer (some (.prim .bool)) true = visit site (proving (negatedIf n x)))
    (hd : d.infer (some (.prim .bool)) true = visit site (proving (negatedIf (!n) x))) (s : BodyState) :
    (condition d.asChild).value c s = ((condition e.asChild).value c s).swap ∧
      (condition d.asChild).after c s = (condition e.asChild).after c s := by
  cases hs : s.aborted with
  | true =>
    obtain ⟨hvalue, hafter⟩ := idle_condition (c := c) e s hs
    obtain ⟨hvalue', hafter'⟩ := idle_condition (c := c) d s hs
    rw [hvalue, hvalue', hafter, hafter']
    exact ⟨rfl, rfl⟩
  | false =>
    obtain ⟨hvalue, hafter⟩ := run_condition_visit (c := c) he hs
    obtain ⟨hvalue', hafter'⟩ := run_condition_visit (c := c) hd hs
    rw [hvalue, hvalue', hafter, hafter']
    refine ⟨?_, rfl⟩
    cases n <;> rfl

theorem parallel_test {e : Bool → Expr} {site : Site}
    (he : ∀ n, (e n).infer (some (.prim .bool)) true = visit site (proving (negatedIf n x))) (n negated : Bool) :
    Parallel c hidden (Polar negated) (condition (e n).asChild) (condition (e (n ^^ negated)).asChild) := by
  intro s t hst
  obtain ⟨hvalue, hafter⟩ := parallel_condition c hidden (e n) s t hst
  cases negated with
  | false =>
    rw [Bool.xor_false]
    exact ⟨hvalue.symm, hafter⟩
  | true =>
    obtain ⟨hswap, hsame⟩ := run_opposite (c := c) (he n) (he !n) t
    rw [Bool.xor_true, hswap, hsame]
    exact ⟨congrArg Facts.swap hvalue.symm, hafter⟩

end Infer

open Infer

-- The two runs start from states that may differ at the connectives, since the first operands have
-- left different records there.
theorem Expr.parallel_normalForm (c : BodyContext) (hidden : List Nat) (sites : List Bool → Site)
    (negated : Bool) (e : Expr) (h : e.connectives ⊆ hidden)
    (k : (e.normalForm sites negated).connectives ⊆ hidden) :
    Parallel c hidden (Polar negated) (condition e.asChild) (condition (e.normalForm sites negated).asChild) := by
  induction e using condition_induction generalizing sites negated with
  | not site e ih =>
    obtain ⟨hsite, h⟩ := List.cons_subset.mp h
    have hnegation : Parallel c hidden (Polar negated) (negation e.asChild)
        (condition (e.normalForm sites !negated).asChild) :=
      (ih sites (!negated) h k).bind fun f g hfg => parallel_pure hfg.not
    exact hnegation.of_decided_left (decided_not site e hsite)
  | and site l r ihl ihr =>
    cases negated <;> exact parallel_junction true h k (ihl _ _) (ihr _ _)
  | or site l r ihl ihr =>
    cases negated <;> exact parallel_junction false h k (ihl _ _) (ihr _ _)
  | isTest site e ty n => exact parallel_test (e := fun n => isTest site e ty n) (fun _ => rfl) n negated
  | noneCheck site e n => exact parallel_test (e := fun n => noneCheck site e n) (fun _ => rfl) n negated
  | plain e he =>
    rw [normalForm_of_isPlain he] at k ⊢
    cases negated with
    | true =>
      obtain ⟨hsite, -⟩ := List.cons_subset.mp k
      refine .of_decided_right (decided_not (sites []) e hsite) fun s t hst => ?_
      obtain ⟨hvalue, hafter⟩ := parallel_condition c hidden e s t hst
      exact ⟨congrArg Facts.swap hvalue.symm, hafter⟩
    | false =>
      intro s t hst
      obtain ⟨hvalue, hafter⟩ := parallel_condition c hidden e s t hst
      exact ⟨hvalue.symm, hafter⟩

-- A condition and its normal form prove the same, report the same, and record the same outside their
-- connectives.
theorem Expr.condition_normalForm (c : BodyContext) (s : BodyState) (sites : List Bool → Site) (e : Expr) :
    (e.normalForm sites false).isNormal = true ∧ (e.normalForm sites false).leaves = e.leaves ∧
      (e.normalForm sites false).facts c s = e.facts c s ∧
      ((condition (e.normalForm sites false).asChild).after c s).errors = ((condition e.asChild).after c s).errors ∧
      ∀ i, i ∉ e.connectives → i ∉ (e.normalForm sites false).connectives →
        ((condition (e.normalForm sites false).asChild).after c s).typeOf i =
          ((condition e.asChild).after c s).typeOf i := by
  obtain ⟨hvalue, hafter⟩ := parallel_normalForm c (e.connectives ++ (e.normalForm sites false).connectives) sites
    false e (List.subset_append_left _ _) (List.subset_append_right _ _) s s (.refl s)
  obtain ⟨ts, hsame, htypes⟩ := hafter
  refine ⟨isNormal_normalForm sites false e, leaves_normalForm sites false e, hvalue, by rw [hsame], ?_⟩
  intro i hi hi'
  refine htypes i fun hmem => ?_
  rcases List.mem_append.mp hmem with hmem | hmem
  · exact hi hmem
  · exact hi' hmem

def negatedTests : Expr :=
  .not ⟨1, {}⟩ (.binary ⟨2, {}⟩ .and (.isTest ⟨3, {}⟩ (.ident ⟨4, {}⟩ "x") (.named "i32" []) false)
    (.ident ⟨5, {}⟩ "f"))

theorem Expr.condition_normalForm_negated :
    (negatedTests.normalForm (fun w => ⟨6 + w.length, {}⟩) false).facts {} numberState =
        ⟨[], [⟨⟨"x", []⟩, .union [.prim .i32, .prim .i64], .is (.prim .i32)⟩]⟩ ∧
      ((condition (negatedTests.normalForm (fun w => ⟨6 + w.length, {}⟩) false).asChild).after {}
        numberState).errors.length = 1 ∧
      ((condition (negatedTests.normalForm (fun w => ⟨6 + w.length, {}⟩) false).asChild).after {}
        numberState).typeOf 4 = some (.prim .i32) := by
  obtain ⟨-, -, hfacts, herrors, htypes⟩ :=
    condition_normalForm {} numberState (fun w => ⟨6 + w.length, {}⟩) negatedTests
  rw [hfacts, herrors, htypes 4 (by decide) (by decide)]
  exact ⟨rfl, rfl, rfl⟩

end TypeFlow
