import TypeFlow.Proofs.Infer.Reading
import TypeFlow.Proofs.Infer.Writes

namespace TypeFlow

namespace Expr

def untested (p : Path) (ps : List Path) : Bool := ps.all fun q => !q.startsWith p

mutual

def overwrites (p : Path) : Expr → Bool
  | mutArg _ e => e.path?.any p.startsWith || overwrites p e
  | borrow _ m e => m && e.path?.any p.startsWith || overwrites p e
  | field _ e _ | neg _ e | not _ e | isTest _ e _ _ | noneCheck _ e _ => overwrites p e
  | binary _ op l r =>
    overwrites p l && (op.isLogical || untested p r.tested) || !op.isLogical && overwrites p r
  | index _ l r => overwrites p l && untested p r.tested || overwrites p r
  | call _ _ _ as => overwritesAny p as
  | method _ e _ as => overwrites p e && untested p (testedAll as) || overwritesAny p as
  | array _ es | tuple _ es => overwritesAny p es
  | _ => false

def overwritesAny (p : Path) : List Expr → Bool
  | [] => false
  | e :: es => overwrites p e && untested p (testedAll es) || overwritesAny p es

end

variable {p : Path} {e : Expr}

theorem untested_iff {ps : List Path} :
    untested p ps = true ↔ ∀ q ∈ ps, q.startsWith p = false := by
  simp [untested]

theorem tested_of_isUntypedLiteral (h : e.isUntypedLiteral = true) : e.tested = [] := by
  cases e
  case neg s e => cases e <;> first | rfl | cases h
  all_goals first | rfl | cases h

theorem path?_of_overwrites (h : e.overwrites p = true) : e.path? = none := by
  induction e using path?.induct with
  | case1 => cases h
  | case2 s e x ih => rw [path?, ih h, Option.map_none]
  | case3 e hident hfield => exact path?.eq_3 e hident hfield

theorem mem_asChildren {es : List Expr} {ch : Child} (h : ch ∈ asChildren es) :
    ∃ e ∈ es, ch = e.asChild := by
  induction es with
  | nil => cases h
  | cons e es ih =>
    rcases List.mem_cons.mp h with rfl | h
    · exact ⟨e, by simp, rfl⟩
    · obtain ⟨d, hd, rfl⟩ := ih h
      exact ⟨d, by simp [hd], rfl⟩

end Expr

open BodyInvariant (checks)
open Infer

variable {c : BodyContext} {p : Path}

theorem aboutAll_of_untested {ps : List Path} (h : Expr.untested p ps = true) (on : Bool) :
    (BodyInvariant.tracking c p on).AboutAll ps :=
  fun q hq _ => Expr.untested_iff.mp h q hq

theorem follows_of_untested {e : Expr} (h : Expr.untested p e.tested = true) :
    e.asChild.Follows c p := fun on => checks e (aboutAll_of_untested h on) fun _ _ => True.intro

theorem follows_of_untestedAll {es : List Expr} (h : Expr.untested p (Expr.testedAll es) = true) :
    ∀ ch ∈ Expr.asChildren es, ch.Follows c p := by
  intro ch hch
  obtain ⟨e, he, rfl⟩ := Expr.mem_asChildren hch
  refine follows_of_untested (Expr.untested_iff.mpr fun q hq => Expr.untested_iff.mp h q ?_)
  rw [Expr.testedAll_eq]
  exact List.mem_flatMap.mpr ⟨e, he, hq⟩

theorem follows_literal {e : Expr} (h : e.isUntypedLiteral = true) : e.asChild.Follows c p :=
  follows_of_untested (by rw [Expr.tested_of_isUntypedLiteral h]; rfl)

theorem follows_literals (es : List Expr) :
    ∀ ch ∈ Expr.asChildren es, ch.expr.isUntypedLiteral = true → ch.Follows c p := by
  intro ch hch hlit
  obtain ⟨e, -, rfl⟩ := Expr.mem_asChildren hch
  exact follows_literal hlit

theorem clears_neg {s : Site} {e : Expr} (k : e.overwrites p = true) (h : e.asChild.Clears c p) :
    (Expr.neg s e).asChild.Clears c p := by
  intro x used
  cases e
  case int => cases k
  all_goals exact (clears_negated h x).plain.visit s

theorem clears_logical {left : Child} (right : Expr) (h : left.Clears c p) :
    Clears c p (conjunction left right.asChild) ∧ Clears c p (disjunction left right.asChild) := by
  have hright : (BodyInvariant.tracking c p false).Checks right.asChild :=
    checks right (fun _ _ => nofun) fun _ _ => True.intro
  rw [conjunction_eq, disjunction_eq]
  exact ⟨h.condition.bind_left fun _ =>
      (follows_inBranch _ hright.condition).bind fun _ => follows_pure _,
    h.condition.bind_left fun _ =>
      (follows_inBranch _ hright.condition).bind fun _ => follows_pure _⟩

theorem clears_binary_expr {s : Site} {op : BinaryOp} {l r : Expr}
    (h : (Expr.binary s op l r).overwrites p = true)
    (hl : l.overwrites p = true → l.asChild.Clears c p)
    (hr : r.overwrites p = true → r.asChild.Clears c p) :
    (Expr.binary s op l r).asChild.Clears c p := by
  intro x used
  simp only [Expr.overwrites, Bool.or_eq_true, Bool.and_eq_true, Bool.not_eq_true'] at h
  cases hop : op.isLogical with
  | true =>
    have hleft : l.overwrites p = true := by simpa [hop] using h
    obtain ⟨hand, hor⟩ := clears_logical r (hl hleft)
    cases op <;> cases hop
    · exact hand.proving.visit s
    · exact hor.proving.visit s
  | false =>
    have hoperands : l.asChild.Clears c p ∧ r.asChild.Follows c p ∨
        r.asChild.Clears c p ∧ (l.isUntypedLiteral = true → l.asChild.Follows c p) := by
      rcases h with ⟨hleft, hright⟩ | ⟨-, hright⟩
      · exact .inl ⟨hl hleft, follows_of_untested (hright.resolve_left (by simp [hop]))⟩
      · exact .inr ⟨hr hright, follows_literal⟩
    have hrule := clears_binary s.span op x hoperands
    cases op <;> cases hop <;> exact hrule.plain.visit s

mutual

theorem clears_of_overwrites : (e : Expr) → e.overwrites p = true → e.asChild.Clears c p
  | .mutArg s e, h => by
    rcases Bool.or_eq_true_iff.mp h with h | h
    · exact fun x _ => (clears_mutArg_path h x).plain.visit s
    · have he := clears_of_overwrites e h
      exact fun x _ => (clears_mutArg he x).plain.visit s
  | .borrow s m e, h => by
    rcases Bool.or_eq_true_iff.mp h with h | h
    · obtain ⟨hm, hpath⟩ := Bool.and_eq_true_iff.mp h
      subst hm
      exact fun x _ => (clears_borrow_path s.span hpath x).plain.visit s
    · have he := clears_of_overwrites e h
      exact fun x _ => (clears_borrow s.span m he x).plain.visit s
  | .field s e x, h => by
    have he := clears_of_overwrites e h
    exact fun _ _ => (clears_field s.span x he).plain.visit s
  | .neg s e, h => clears_neg h (clears_of_overwrites e h)
  | .not s e, h => by
    have he := clears_of_overwrites e h
    exact fun _ _ => (clears_negation he).proving.visit s
  | .isTest s e w b, h => by
    have he := clears_isTest s.span w (clears_of_overwrites e h) (Expr.path?_of_overwrites h)
    exact fun _ _ => (clears_negatedIf b he).proving.visit s
  | .noneCheck s e b, h => by
    have he := clears_noneCheck s.span (clears_of_overwrites e h) (Expr.path?_of_overwrites h)
    exact fun _ _ => (clears_negatedIf b he).proving.visit s
  | .binary s op l r, h => clears_binary_expr h (clears_of_overwrites l) (clears_of_overwrites r)
  | .index s l r, h => by
    rcases Bool.or_eq_true_iff.mp h with h | h
    · obtain ⟨h₁, h₂⟩ := Bool.and_eq_true_iff.mp h
      have hl := clears_of_overwrites l h₁
      exact fun _ _ => (clears_indexed s.span hl (follows_of_untested h₂)).plain.visit s
    · have hr := clears_of_overwrites r h
      exact fun _ _ => (clears_indexed_index s.span l.asChild hr).plain.visit s
  | .call s f gs as, h => by
    have ha := clearsAmong_of_overwritesAny as h
    exact fun _ _ => (clears_call s f (GenericArg.asChildren gs) ha (follows_literals as)).plain.visit s
  | .method s e f as, h => by
    rcases Bool.or_eq_true_iff.mp h with h | h
    · obtain ⟨h₁, h₂⟩ := Bool.and_eq_true_iff.mp h
      have he := clears_of_overwrites e h₁
      exact fun _ _ => (clears_methodCall s.span f he (follows_of_untestedAll h₂)).plain.visit s
    · have ha := clearsAmong_of_overwritesAny as h
      exact fun _ _ => (clears_methodCall_args s.span e.asChild f ha).plain.visit s
  | .array s es, h => by
    have he := clearsAmong_of_overwritesAny es h
    exact fun x _ => (clears_array s.span x he).plain.visit s
  | .tuple s es, h => by
    have he := clearsAmong_of_overwritesAny es h
    exact fun x _ => (clears_tuple x he).plain.visit s

theorem clearsAmong_of_overwritesAny : (es : List Expr) → Expr.overwritesAny p es = true →
    ClearsAmong c p (Expr.asChildren es)
  | e :: es, h => by
    rcases Bool.or_eq_true_iff.mp h with h | h
    · obtain ⟨h₁, h₂⟩ := Bool.and_eq_true_iff.mp h
      exact .here (clears_of_overwrites e h₁) (follows_of_untestedAll h₂)
    · exact .later (clearsAmong_of_overwritesAny es h)

end

def Expr.leading : Expr → Expr
  | not _ e => e.leading
  | binary _ .and l _ => l.leading
  | binary _ .or l _ => l.leading
  | e => e

variable {s : BodyState}

theorem after_infer_of_aborted (e : Expr) (x : Option Ty) (used : Bool) (h : s.aborted = true) :
    (e.infer x used).after c s = s := by
  cases e
  case missing => rfl
  case neg site e => cases e <;> exact (run_visit_of_aborted c site _ h).1
  case binary site op l r => cases op <;> exact (run_visit_of_aborted c site _ h).1
  all_goals exact (run_visit_of_aborted c _ _ h).1

theorem flow_condition (ch : Child) (s : BodyState) :
    ((condition ch).after c s).flow = ((ch.run (some (.prim .bool)) true).after c s).flow :=
  (sees_requireAssignable _ _ _ _ rfl rfl).2.1

theorem flow_condition_of_aborted (e : Expr) (h : s.aborted = true) :
    ((condition e.asChild).after c s).flow = s.flow := by
  rw [flow_condition]
  exact congrArg BodyState.flow (after_infer_of_aborted e _ _ h)

theorem flow_condition_visit {e : Expr} {site : Site} {x : Infer Facts}
    (he : e.infer (some (.prim .bool)) true = visit site (proving x)) (h : s.aborted = false) :
    ((condition e.asChild).after c s).flow = (x.after c s).flow := by
  rw [flow_condition]
  show ((e.infer (some (.prim .bool)) true).after c s).flow = (x.after c s).flow
  rw [he]
  exact (flow_visit c site (proving x) h).1

theorem flow_logical (left : Child) (right : Expr) (s : BodyState) :
    ((conjunction left right.asChild).after c s).flow = ((condition left).after c s).flow ∧
      ((disjunction left right.asChild).after c s).flow = ((condition left).after c s).flow := by
  have hright (t : BodyState) : BodyState.Continues t ((condition right.asChild).after c t) := by
    have hchecks : (BodyInvariant.tracking c ⟨"", []⟩ false).Checks right.asChild :=
      checks right (fun _ _ => nofun) fun _ _ => True.intro
    exact (hchecks.condition t nofun).2.1.toContinues
  rw [conjunction_eq, disjunction_eq]
  simp only [after_bind, after_pure]
  exact ⟨flow_inBranch _ (hright _), flow_inBranch _ (hright _)⟩

theorem flow_condition_leading (e : Expr) (s : BodyState) :
    ((condition e.asChild).after c s).flow = ((condition e.leading.asChild).after c s).flow := by
  cases hs : s.aborted with
  | true => rw [flow_condition_of_aborted e hs, flow_condition_of_aborted e.leading hs]
  | false =>
    fun_induction Expr.leading e with
    | case1 site e ih =>
      have hneg : (negation e.asChild).after c s = (condition e.asChild).after c s := rfl
      rw [← ih, ← hneg]
      exact flow_condition_visit rfl hs
    | case2 site l r ih =>
      rw [← ih, ← (flow_logical l.asChild r s).1]
      exact flow_condition_visit rfl hs
    | case3 site l r ih =>
      rw [← ih, ← (flow_logical l.asChild r s).2]
      exact flow_condition_visit rfl hs
    | case4 => rfl

def Expr.flowAfter (c : BodyContext) (s : BodyState) (e : Expr) : FlowStack :=
  ((condition e.asChild).after c s).flow

def Expr.facts (c : BodyContext) (s : BodyState) (e : Expr) : Facts :=
  (condition e.asChild).value c s

structure Expr.Forgets (c : BodyContext) (s : BodyState) (p : Path) (e : Expr) : Prop where
  current : (e.flowAfter c s).top.Clear p
  whenTrue : ((e.flowAfter c s).push c.registry (e.facts c s).whenTrue).top.Clear p
  whenFalse : ((e.flowAfter c s).push c.registry (e.facts c s).whenFalse).top.Clear p

inductive Expr.Writes (c : BodyContext) (s : BodyState) (p : Path) : Expr → Prop
  | operand {e : Expr} : e.overwrites p = true → e.Writes c s p
  | receiver {site : Site} {e : Expr} {x : String} {as : List Expr} {found : Registry.FoundMethod} :
    e.path?.any p.startsWith = true → ((e.asChild.infer none).value c s).isError = false →
    c.registry.findMethod ((e.asChild.infer none).value c s) x = some found →
    found.method.mutReceiver = true → (method site e x as).Writes c s p

theorem Expr.Writes.clearsFrom {e : Expr} (h : e.Writes c s p) :
    ClearsFrom c p s (condition e.asChild) := by
  cases h with
  | operand h => exact (clears_of_overwrites e h).condition s
  | @receiver site e x as found he ht hfound hmut =>
    have hcall : ClearsFrom c p s (methodCall site.span e.asChild x (asChildren as)) :=
      clears_methodCall_known site.span he ht hfound hmut (asChildren as)
        ((e.asChild.infer none).after c s)
    have hrun : ClearsFrom c p s ((method site e x as).infer (some (.prim .bool)) true) :=
      (hcall.bind_left fun _ => follows_pure _).visit site
    exact hrun.bind_left fun _ => (follows_requireAssignable _ _ _).bind fun _ => follows_pure _

theorem Expr.facts_clear_of_untested {e : Expr} (h : untested p e.tested = true) :
    (({} : Layer).applyAll c.registry (e.facts c s).whenTrue).Clear p ∧
      (({} : Layer).applyAll c.registry (e.facts c s).whenFalse).Clear p := by
  have hchecks : (BodyInvariant.layered c (fun q => q.startsWith p = false) (fun _ => True)
      (fun _ _ => True.intro) (fun _ _ => True.intro) (fun _ _ => True.intro)).Checks e.asChild :=
    checks e (untested_iff.mp h) fun _ _ => True.intro
  obtain ⟨-, -, hfacts⟩ := hchecks.condition s True.intro
  exact ⟨Layer.clear_empty.applyAll fun f hf => (hfacts.whenTrue f hf).about,
    Layer.clear_empty.applyAll fun f hf => (hfacts.whenFalse f hf).about⟩

theorem Expr.forgets_iff (c : BodyContext) (s : BodyState) (p : Path) (e : Expr) :
    e.flowAfter c s = e.leading.flowAfter c s ∧
      (e.Forgets c s p ↔ (e.leading.flowAfter c s).top.Clear p ∧
        (({} : Layer).applyAll c.registry (e.facts c s).whenTrue).Clear p ∧
        (({} : Layer).applyAll c.registry (e.facts c s).whenFalse).Clear p) ∧
      (e.leading.Writes c s p → ((condition e.leading.asChild).after c s).aborted = false →
        (e.leading.flowAfter c s).top.Clear p) ∧
      (untested p e.tested = true →
        (({} : Layer).applyAll c.registry (e.facts c s).whenTrue).Clear p ∧
        (({} : Layer).applyAll c.registry (e.facts c s).whenFalse).Clear p) := by
  have hflow : e.flowAfter c s = e.leading.flowAfter c s := flow_condition_leading e s
  refine ⟨hflow, ⟨fun h => ?_, fun ⟨h, htrue, hfalse⟩ => ?_⟩, fun hw ha => hw.clearsFrom ha,
    facts_clear_of_untested⟩
  · have hclear := h.current
    exact ⟨hflow ▸ hclear, (Layer.clear_applyAll_iff hclear _).mp h.whenTrue,
      (Layer.clear_applyAll_iff hclear _).mp h.whenFalse⟩
  · rw [← hflow] at h
    exact ⟨h, (Layer.clear_applyAll_iff h _).mpr htrue, (Layer.clear_applyAll_iff h _).mpr hfalse⟩

def numberState : BodyState where
  scope := ⟨[("x", ⟨.union [.prim .i32, .prim .i64], true⟩),
    ("g", ⟨.function [.union [.prim .i32, .prim .i64]] false (.prim .bool), false⟩)], []⟩
  flow := ⟨⟨[(⟨"x", []⟩, ⟨.union [.prim .i32, .prim .i64], .prim .i32, []⟩)]⟩, []⟩

def writeNumber : Expr := .call {} "g" [] [.mutArg {} (.ident {} "x")]

theorem Expr.forgets_by_order :
    (binary {} .and writeNumber (.bool {} true)).Forgets {} numberState ⟨"x", []⟩ ∧
      ¬ (binary {} .and (.bool {} true) writeNumber).Forgets {} numberState ⟨"x", []⟩ := by
  obtain ⟨-, hfirst, hwrites, huntested⟩ :=
    Expr.forgets_iff {} numberState ⟨"x", []⟩ (binary {} .and writeNumber (.bool {} true))
  obtain ⟨-, hsecond, -, -⟩ :=
    Expr.forgets_iff {} numberState ⟨"x", []⟩ (binary {} .and (.bool {} true) writeNumber)
  refine ⟨hfirst.mpr ⟨hwrites (.operand rfl) rfl, huntested rfl⟩, fun h => ?_⟩
  obtain ⟨hclear, -, -⟩ := hsecond.mp h
  have hflow : (binary {} .and (.bool {} true) writeNumber).leading.flowAfter {} numberState =
    numberState.flow := rfl
  rw [hflow] at hclear
  exact absurd (hclear _ (List.mem_singleton.mpr rfl)) (by decide)

end TypeFlow
