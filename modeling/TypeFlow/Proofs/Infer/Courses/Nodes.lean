import TypeFlow.Proofs.Infer.Courses.Branches
import TypeFlow.Proofs.Infer.Courses.Calls
import TypeFlow.Proofs.Infer.Rules.Nodes

namespace TypeFlow

open Infer (Course)

variable {c : BodyContext} {I : List Span → Prop}

theorem Expr.spans_children (es : List Expr) : (asChildren es).map (·.span) = es.map (·.span) := by
  induction es with
  | nil => rfl
  | cons e es ih => exact congrArg (e.span :: ·) ih

theorem GenericArg.runs_children {gs : List GenericArg} (h : ∀ e ∈ gs.flatMap (·.exprs), e.asChild.Runs c I) :
    ∀ a ∈ asChildren gs, ∀ ch, a = .value ch → ch.Runs c I :=
  fun a ha => (forall_generics h (W := fun _ => True) (fun _ _ => True.intro) a ha).1

theorem GenericArg.places_children (span : Span) (gs : List GenericArg) :
    (asChildren gs).flatMap (·.places span) = gs.flatMap (·.places span) := by
  induction gs with
  | nil => rfl
  | cons g gs ih =>
    cases g with
    | type w => exact congrArg (span :: ·) ih
    | value e => exact ih

theorem FieldInit.children (fs : List FieldInit) : (asChildren fs).map (·.value.expr) = fs.map (·.value) ∧
    (asChildren fs).map (·.span) = fs.map (·.span) ∧
      (asChildren fs).map (·.value.span) = fs.map (·.value.span) := by
  induction fs with
  | nil => exact ⟨rfl, rfl, rfl⟩
  | cons f fs ih =>
    obtain ⟨x, e, s⟩ := f
    obtain ⟨hexprs, hspans, hvalues⟩ := ih
    exact ⟨congrArg (e :: ·) hexprs, congrArg (s :: ·) hspans, congrArg (e.span :: ·) hvalues⟩

theorem MapEntry.exprs_children (es : List MapEntry) :
    (asChildren es).flatMap (·.exprs) = es.flatMap (·.exprs) := by
  induction es with
  | nil => rfl
  | cons e es ih =>
    obtain ⟨k, v, s⟩ := e
    exact congrArg (k :: v :: ·) ih

theorem Arm.runs_children {as : List Arm} (h : ∀ e ∈ as.flatMap (·.exprs), e.asChild.Runs c I) :
    ∀ a ∈ asChildren as, a.Runs c I := by
  intro a ha
  obtain ⟨hvalue, -, hbody⟩ := forall_arms h (W := fun _ => True) (fun _ _ => True.intro) a ha
  exact ⟨hvalue, hbody⟩

theorem Arm.children (as : List Arm) : (asChildren as).flatMap (·.exprs) = as.flatMap (·.exprs) ∧
    (asChildren as).flatMap (·.places) = as.flatMap (·.places) := by
  induction as with
  | nil => exact ⟨rfl, rfl⟩
  | cons a as ih =>
    obtain ⟨hexprs, hplaces⟩ := ih
    cases a with
    | onType w b s => exact ⟨congrArg (b :: ·) hexprs, congrArg (s :: ·) hplaces⟩
    | onValue p b s => exact ⟨congrArg (p :: b :: ·) hexprs, hplaces⟩

theorem Infer.Course.plain {L : List Span} {E : List Expr} {act : Infer Ty}
    (h : Course c I False L E act fun _ => True) : Course c I False L E (Infer.plain act) fun _ => True :=
  h.returns _

theorem Infer.Course.proving {L : List Span} {E : List Expr} {act : Infer Facts}
    (h : Course c I False L E act fun _ => True) : Course c I False L E (Infer.proving act) fun _ => True :=
  h.returns _

abbrev Expr.Course (c : BodyContext) (I : List Span → Prop) (e : Expr) (act : Infer Typed) : Prop :=
  Infer.Course c I False e.aftermath e.operands act fun _ => True

section

open Infer

variable {s : Site}

theorem course_neg {e : Expr} (h : e.asChild.Runs c I) (x : Option Ty) (used : Bool) :
    ∃ act, (Expr.neg s e).infer x used = visit s act ∧ (Expr.neg s e).Course c I act := by
  cases e
  case int t n => exact ⟨_, rfl, (course_negatedInt t n x).plain⟩
  all_goals exact ⟨_, rfl, (course_negated h x).plain⟩

theorem course_operator (op : BinaryOp) {l r : Expr} (hl : l.asChild.Runs c I) (hr : r.asChild.Runs c I)
    (x : Option Ty) (used : Bool) :
    ∃ act, (Expr.binary s op l r).infer x used = visit s act ∧ (Expr.binary s op l r).Course c I act := by
  cases op
  case and => exact ⟨_, rfl, (course_conjunction hl hr).proving⟩
  case or => exact ⟨_, rfl, (course_disjunction hl hr).proving⟩
  all_goals exact ⟨_, rfl, (course_binary s.span _ hl hr x).plain⟩

theorem course_callNode (f : String) {gs : List GenericArg} {as : List Expr}
    (hgs : ∀ e ∈ gs.flatMap (·.exprs), e.asChild.Runs c I) (has : ∀ e ∈ as, e.asChild.Runs c I) :
    (Expr.call s f gs as).Course c I (plain (call s f (GenericArg.asChildren gs) (Expr.asChildren as))) := by
  have hcall := course_call s f (GenericArg.runs_children hgs) (forall_asChildren has)
  rw [GenericArg.places_children, Expr.spans_children, exprs_asChildren] at hcall
  exact hcall.plain

theorem course_methodNode (f : String) {e : Expr} {as : List Expr} (he : e.asChild.Runs c I)
    (has : ∀ e ∈ as, e.asChild.Runs c I) :
    (Expr.method s e f as).Course c I (plain (methodCall s.span e.asChild f (Expr.asChildren as))) := by
  have hcall := course_methodCall s.span f he (forall_asChildren has)
  rw [exprs_asChildren] at hcall
  exact hcall.plain

theorem course_constructNode (name : String) {gs : List GenericArg} {fs : List FieldInit}
    (hgs : ∀ e ∈ gs.flatMap (·.exprs), e.asChild.Runs c I) (hfs : ∀ e ∈ fs.map (·.value), e.asChild.Runs c I) :
    (Expr.construct s name gs fs).Course c I
      (plain (construct s name (GenericArg.asChildren gs) (FieldInit.asChildren fs))) := by
  have hconstruct := course_construct s name (GenericArg.runs_children hgs) (forall_fields hfs)
  obtain ⟨hexprs, hspans, hvalues⟩ := FieldInit.children fs
  rw [GenericArg.places_children, hexprs, hspans, hvalues] at hconstruct
  exact hconstruct.plain

theorem course_arrayNode {es : List Expr} (h : ∀ e ∈ es, e.asChild.Runs c I) (x : Option Ty) :
    (Expr.array s es).Course c I (plain (array s.span (Expr.asChildren es) x)) := by
  have harray := course_array s.span (forall_asChildren h) x
  rw [exprs_asChildren] at harray
  exact harray.plain

theorem course_tupleNode {es : List Expr} (h : ∀ e ∈ es, e.asChild.Runs c I) (x : Option Ty) :
    (Expr.tuple s es).Course c I (plain (tuple (Expr.asChildren es) x)) := by
  have htuple := course_tuple (forall_asChildren h) x
  rw [exprs_asChildren] at htuple
  exact htuple.plain

theorem course_mapLitNode {es : List MapEntry} (h : ∀ e ∈ es.flatMap (·.exprs), e.asChild.Runs c I) (x : Option Ty) :
    (Expr.mapLit s es).Course c I (plain (mapLit s.span (MapEntry.asChildren es) x)) := by
  have hmap := course_mapLit s.span (forall_entries h) x
  rw [MapEntry.exprs_children] at hmap
  exact hmap.plain

theorem course_matchNode {e d : Expr} {as : List Arm} (he : e.asChild.Runs c I)
    (has : ∀ e ∈ as.flatMap (·.exprs), e.asChild.Runs c I) (hd : d.asChild.Runs c I) (x : Option Ty) (used : Bool) :
    (Expr.matchOn s e as d).Course c I (plain (matchOn s.span e.asChild (Arm.asChildren as) d.asChild x used)) := by
  have hmatch := course_matchOn (x := x) s.span used he (Arm.runs_children has) hd
  obtain ⟨hexprs, hplaces⟩ := Arm.children as
  rw [hexprs, hplaces] at hmatch
  exact hmatch.plain

theorem course_blockNode {ss : List Stmt} {e : Expr} (hss : ∀ p ∈ ss.flatMap (·.exprs), p.asChild.Runs c I)
    (he : e.asChild.Runs c I) (x : Option Ty) (used : Bool) :
    (Expr.block s ss e).Course c I (plain (block (Stmt.asChildren ss) e.asChild x used)) :=
  (course_block used (fun d hd p hp => hss p (List.mem_flatMap.mpr ⟨d, hd, hp⟩)) he).plain

theorem course_node {e : Expr} {s : Site} (hs : e.site? = some s) (h : ∀ p ∈ e.parts, p.asChild.Runs c I)
    (x : Option Ty) (used : Bool) : ∃ act, e.infer x used = visit s act ∧ e.Course c I act := by
  cases e
  case missing => cases hs
  all_goals
    cases hs
    simp only [Expr.parts, List.mem_append, List.mem_cons, List.not_mem_nil, or_false, forall_eq_or_imp,
      forall_eq] at h
  case int | float | bool | str | rune | noneLit | nilLit => exact ⟨_, rfl, (Course.done _).plain⟩
  case ident name => exact ⟨_, rfl, (course_ident s.span name).plain⟩
  case variant enum name => exact ⟨_, rfl, (course_enumVariant s.span enum name).plain⟩
  case field e name => exact ⟨_, rfl, (course_field s.span name h).plain⟩
  case index e i => exact ⟨_, rfl, (course_indexed s.span h.1 h.2).plain⟩
  case neg e => exact course_neg h x used
  case not e => exact ⟨_, rfl, (course_negation h).proving⟩
  case binary op l r => exact course_operator op h.1 h.2 x used
  case call f gs as => exact ⟨_, rfl, course_callNode f (fun e he => h e (.inl he)) fun e he => h e (.inr he)⟩
  case method e f as => exact ⟨_, rfl, course_methodNode f h.1 h.2⟩
  case mutArg e => exact ⟨_, rfl, (course_mutArg h x).plain⟩
  case borrow m e => exact ⟨_, rfl, (course_borrow s.span m h x).plain⟩
  case construct name gs fs =>
    exact ⟨_, rfl, course_constructNode name (fun e he => h e (.inl he)) fun e he => h e (.inr he)⟩
  case array es => exact ⟨_, rfl, course_arrayNode h x⟩
  case tuple es => exact ⟨_, rfl, course_tupleNode h x⟩
  case mapLit es => exact ⟨_, rfl, course_mapLitNode h x⟩
  case isTest e w b => exact ⟨_, rfl, (course_negatedIf b (course_isTest s.span w h)).proving⟩
  case noneCheck e b => exact ⟨_, rfl, (course_negatedIf b (course_noneCheck s.span h)).proving⟩
  case cond a b d => exact ⟨_, rfl, (course_cond s.span used h.1 h.2.1 h.2.2).plain⟩
  case guardBind name v a b => exact ⟨_, rfl, (course_guardBind s.span name used h.1 h.2.1 h.2.2).plain⟩
  case matchOn e as d => exact ⟨_, rfl, course_matchNode h.1 (fun e he => h.2 e (.inl he)) (h.2 d (.inr rfl)) x used⟩
  case block ss e => exact ⟨_, rfl, course_blockNode (fun p hp => h p (.inl hp)) (h e (.inr rfl)) x used⟩
  case ret e => exact ⟨_, rfl, (course_returned s.span h).plain⟩
  case breakLoop => exact ⟨_, rfl, (course_loopControl s.span .leave).plain⟩
  case continueLoop => exact ⟨_, rfl, (course_loopControl s.span .next).plain⟩
  case loop a b => exact ⟨_, rfl, (course_loop h.1 h.2).plain⟩

end

theorem Expr.runs (c : BodyContext) (e : Expr) : e.asChild.Runs c e.Stops := by
  induction e using Expr.parts_induction with
  | h e ih =>
    intro x used
    cases hsite : e.site? with
    | none =>
      cases e
      case missing => exact Course.missing (.pure fun _ => rfl) nofun
      all_goals cases hsite
    | some site =>
      obtain ⟨act, heq, hact⟩ := course_node (I := fun l => ∃ p ∈ e.parts, p.Stops l) hsite
        (fun p hp x used => (ih p hp x used).through fun l hl => ⟨p, hp, hl⟩) x used
      have hrun : e.asChild.run x used = Infer.visit site act := heq
      rw [hrun]
      exact hact.visit hsite

end TypeFlow
