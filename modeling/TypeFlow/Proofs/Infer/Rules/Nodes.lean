import TypeFlow.Proofs.Infer.Rules.Calls
import TypeFlow.Proofs.Infer.Rules.Statements
import TypeFlow.Proofs.Syntax.Complete

namespace TypeFlow

def FieldInit.name : FieldInit → String
  | .mk x _ _ => x

namespace Expr

def ownTests : Expr → List Path
  | isTest _ e _ _ | noneCheck _ e _ | matchOn _ e _ _ | guardBind _ _ e _ _ => e.path?.toList
  | _ => []

def ownAnnotations : Expr → List Written
  | isTest _ _ w _ => [w]
  | call _ _ gs _ | construct _ _ gs _ => gs.flatMap (·.annotations)
  | matchOn _ _ as _ => as.flatMap (·.annotations)
  | block _ ss _ => ss.flatMap (·.annotations)
  | _ => []

def ownSources : Expr → List Expr
  | array _ es => es.take 1
  | mapLit _ es => (es.take 1).flatMap (·.exprs)
  | tuple _ es => es
  | borrow _ _ e => [e]
  | _ => []

end Expr

open Theory

variable {c : BodyContext} {T : Theory c} {A : Prop} {g : Spot} {σ : Scope} {x : Option Ty}

def turnsIn (σ : Scope) (es : List Expr) : List Turn := es.map fun e => Turn.of (σ, e)

theorem turnsIn_append (σ : Scope) (es fs : List Expr) :
    turnsIn σ (es ++ fs) = turnsIn σ es ++ turnsIn σ fs := List.map_append

theorem turns_asChildren (σ : Scope) (es : List Expr) :
    (Expr.asChildren es).map (·.turn σ) = turnsIn σ es := by
  induction es with
  | nil => rfl
  | cons e es ih => exact congrArg (_ :: ·) ih

theorem exprs_asChildren (es : List Expr) : (Expr.asChildren es).map (·.expr) = es := by
  induction es with
  | nil => rfl
  | cons e es ih => exact congrArg (e :: ·) ih

theorem turns_generics (σ : Scope) (gs : List GenericArg) :
    (GenericArg.asChildren gs).flatMap (·.turns σ) = turnsIn σ (gs.flatMap (·.exprs)) := by
  induction gs with
  | nil => rfl
  | cons a gs ih =>
    cases a with
    | type w => exact ih
    | value e => exact congrArg (_ :: ·) ih

theorem turns_fields (σ : Scope) (fs : List FieldInit) :
    (FieldInit.asChildren fs).map (·.value.turn σ) = turnsIn σ (fs.map (·.value)) := by
  induction fs with
  | nil => rfl
  | cons f fs ih =>
    obtain ⟨x, e, s⟩ := f
    exact congrArg (_ :: ·) ih

theorem names_fields (fs : List FieldInit) :
    (FieldInit.asChildren fs).map (fun f => (f.name, f.value.expr)) =
      fs.map fun f => (f.name, f.value) := by
  induction fs with
  | nil => rfl
  | cons f fs ih =>
    obtain ⟨x, e, s⟩ := f
    exact congrArg (_ :: ·) ih

theorem turns_entries (σ : Scope) (es : List MapEntry) :
    (MapEntry.asChildren es).flatMap (·.turns σ) = turnsIn σ (es.flatMap (·.exprs)) := by
  induction es with
  | nil => rfl
  | cons e es ih =>
    obtain ⟨k, v, s⟩ := e
    exact congrArg (_ :: _ :: ·) ih

theorem turns_arms (σ : Scope) (as : List Arm) :
    (Arm.asChildren as).flatMap (·.turns σ) = turnsIn σ (as.flatMap (·.exprs)) := by
  induction as with
  | nil => rfl
  | cons a as ih =>
    cases a with
    | onType w b s => exact congrArg (_ :: ·) ih
    | onValue p b s => exact congrArg (_ :: _ :: ·) ih

section

variable {P : Child → Prop} {W : Written → Prop}

theorem forall_asChildren {es : List Expr} (h : ∀ e ∈ es, P e.asChild) : ∀ ch ∈ Expr.asChildren es, P ch := by
  induction es with
  | nil => exact nofun
  | cons e es ih => exact List.forall_mem_cons.mpr ⟨h e (by simp), ih fun d hd => h d (by simp [hd])⟩

theorem forall_generics {gs : List GenericArg} (h : ∀ e ∈ gs.flatMap (·.exprs), P e.asChild)
    (hw : ∀ w ∈ gs.flatMap (·.annotations), W w) :
    ∀ a ∈ GenericArg.asChildren gs, (∀ ch, a = .value ch → P ch) ∧ ∀ w, a = .type w → W w := by
  induction gs with
  | nil => exact nofun
  | cons a gs ih =>
    have hgs := ih (fun e he => h e (by simp [he])) fun w hmem => hw w (by simp [hmem])
    cases a with
    | type w =>
      refine List.forall_mem_cons.mpr ⟨⟨nofun, ?_⟩, hgs⟩
      rintro _ ⟨⟩
      exact hw w (by simp [GenericArg.annotations])
    | value e =>
      refine List.forall_mem_cons.mpr ⟨⟨?_, nofun⟩, hgs⟩
      rintro _ ⟨⟩
      exact h e (by simp [GenericArg.exprs])

theorem forall_fields {fs : List FieldInit} (h : ∀ e ∈ fs.map (·.value), P e.asChild) :
    ∀ f ∈ FieldInit.asChildren fs, P f.value := by
  induction fs with
  | nil => exact nofun
  | cons f fs ih =>
    obtain ⟨x, e, s⟩ := f
    have he : P e.asChild := h e (by simp [FieldInit.value])
    exact List.forall_mem_cons.mpr ⟨he, ih fun d hd => h d (List.mem_cons_of_mem _ hd)⟩

theorem forall_entries {es : List MapEntry} (h : ∀ e ∈ es.flatMap (·.exprs), P e.asChild) :
    ∀ e ∈ MapEntry.asChildren es, P e.key ∧ P e.value := by
  induction es with
  | nil => exact nofun
  | cons e es ih =>
    obtain ⟨k, v, s⟩ := e
    refine List.forall_mem_cons.mpr ⟨⟨?_, ?_⟩, ih fun e he => h e (by simp [he])⟩
    · exact h k (by simp [MapEntry.exprs])
    · exact h v (by simp [MapEntry.exprs])

theorem forall_head_asChild {es : List Expr} (h : ∀ e ∈ es.take 1, P e.asChild) :
    ∀ ch ∈ (Expr.asChildren es).head?, P ch := by
  cases es with
  | nil => exact nofun
  | cons e es =>
    rintro _ ⟨⟩
    exact h e (by simp)

theorem forall_head_entry {es : List MapEntry} (h : ∀ e ∈ (es.take 1).flatMap (·.exprs), P e.asChild) :
    ∀ e ∈ (MapEntry.asChildren es).head?, P e.key ∧ P e.value := by
  cases es with
  | nil => exact nofun
  | cons e es =>
    obtain ⟨k, v, s⟩ := e
    rintro _ ⟨⟩
    exact ⟨h k (by simp [MapEntry.exprs]), h v (by simp [MapEntry.exprs])⟩

theorem forall_arms {as : List Arm} (h : ∀ e ∈ as.flatMap (·.exprs), P e.asChild)
    (hw : ∀ w ∈ as.flatMap (·.annotations), W w) : ∀ a ∈ Arm.asChildren as,
      (∀ ch, a.pattern = .value ch → P ch) ∧ (∀ w, a.pattern = .type w → W w) ∧ P a.body := by
  induction as with
  | nil => exact nofun
  | cons a as ih =>
    have has := ih (fun e he => h e (by simp [he])) fun w hmem => hw w (by simp [hmem])
    cases a with
    | onType w b s =>
      refine List.forall_mem_cons.mpr ⟨⟨?_, ?_, h b (by simp [Arm.exprs])⟩, has⟩
      · rintro _ ⟨⟩
      · rintro _ ⟨⟩
        exact hw w (by simp [Arm.annotations])
    | onValue p b s =>
      refine List.forall_mem_cons.mpr ⟨⟨?_, ?_, h b (by simp [Arm.exprs])⟩, has⟩
      · rintro _ ⟨⟩
        exact h p (by simp [Arm.exprs])
      · rintro _ ⟨⟩

end

theorem runs_generics {gs : List GenericArg} (h : ∀ e ∈ gs.flatMap (·.exprs), T.runs e.asChild)
    (hw : ∀ w ∈ gs.flatMap (·.annotations), T.written w) : ∀ a ∈ GenericArg.asChildren gs, T.RunsGeneric a :=
  fun a ha => ⟨(forall_generics h hw a ha).1, (forall_generics h hw a ha).2⟩

theorem runs_arms {as : List Arm} (h : ∀ e ∈ as.flatMap (·.exprs), T.runs e.asChild)
    (hw : ∀ w ∈ as.flatMap (·.annotations), T.written w) : ∀ a ∈ Arm.asChildren as, T.RunsArm a := by
  intro a ha
  obtain ⟨hvalue, htype, hbody⟩ := forall_arms h hw a ha
  exact ⟨hvalue, htype, hbody⟩

def Account.Spec (T : Account c) (g : Spot) : Expr → Ty → Spot → Prop
  | .call s f _ as, t, k => T.Calls g s.span f as t k
  | .construct s x _ fs, t, k => T.Constructs g s.span x (fs.map fun f => (f.name, f.value)) t k
  | .method _ e x as, _, _ => T.CallsMethod e x as
  | .field _ e x, _, _ => T.final → ∃ u, T.typeOf e = some u ∧ T.fine u ∧ T.HasField e x u
  | .block _ ss _, _, _ => T.Binds ss
  | .ret _ e, _, _ => e.isPresent = true → T.Accepts e c.returnType
  | _, _, _ => True

structure Account.Leaves (T : Account c) (g : Spot) (e : Expr) (t : Typed) (k : Spot) : Prop where
  result : T.Result g.scope e t
  scope : k.scope = g.scope
  spec : T.Spec g e t.ty k

theorem Theory.sees_of_path? {e : Expr} {t : Ty} (h : e.path? = none) : T.Sees σ e t :=
  ⟨fun _ _ _ hx _ => (nomatch h.symm.trans hx), fun _ hp => nomatch h.symm.trans hp⟩

section

variable {us : List Turn} {e : Expr} (hn : e.path? = none)

include hn

theorem plan_plain {act : Infer Ty} (h : Plan T A g us act fun t k =>
    T.fine t ∧ k.scope = g.scope ∧ T.Spec g e t k) : Plan T A g us (Infer.plain act) (T.Leaves g e) :=
  h.map fun _ _ _ ht => ⟨⟨ht.1, facts_empty _, sees_of_path? hn⟩, ht.2.1, ht.2.2⟩

theorem rule_value {act : Infer Ty} {Q : Ty → Prop} (h : Rule T A g us act Q) (hQ : ∀ t, Q t → T.fine t)
    (hs : ∀ t, Q t → T.Spec g e t g) : Plan T A g us (Infer.plain act) (T.Leaves g e) :=
  plan_plain hn <| Plan.imp h fun t _ _ ht => ⟨hQ t ht.2, ht.1 ▸ rfl, ht.1 ▸ hs t ht.2⟩

theorem rule_proof {act : Infer Facts} (h : Rule T A g us act (T.Facts g.scope))
    (hs : ∀ t, T.Spec g e t g) : Plan T A g us (Infer.proving act) (T.Leaves g e) :=
  Plan.map h fun _ _ _ hf =>
    ⟨⟨.inl (good_prim .bool), hf.2, sees_of_path? hn⟩, hf.1 ▸ rfl, hf.1 ▸ hs _⟩

end

theorem Theory.tests_of_about {e : Expr} (h : ∀ p ∈ e.path?.toList, T.about p) : T.Tests e.asChild :=
  fun p hp => h p (Option.mem_toList.mpr hp)

theorem plan_name (s : Site) (name : String) :
    Plan T A g [] (Infer.plain (Infer.ident s.span name)) (T.Leaves g (.ident s name)) := by
  refine Plan.map (rule_ident s.span name) fun t k _ ht => ?_
  obtain ⟨rfl, hnames⟩ := ht
  refine ⟨⟨.inl hnames.good, facts_empty _, fun hfinal x l hx hl => ?_, fun p hp => ?_⟩, rfl, True.intro⟩
  · cases hx
    exact .inr (hnames.views hfinal l hl)
  · cases hp
    exact .inr hnames.reads

theorem plan_member (s : Site) (name : String) {e : Expr} (h : T.runs e.asChild) :
    Plan T A g (turnsIn g.scope [e]) (Infer.plain (Infer.field s.span e.asChild name))
      (T.Leaves g (.field s e name)) := by
  refine Plan.map (rule_field s.span name h) fun t k _ ht => ?_
  obtain ⟨rfl, hselects⟩ := ht
  refine ⟨⟨.inl hselects.good, facts_empty _, fun _ x l hx _ => ?_, fun p hp => ?_⟩, rfl, hselects.receiver⟩
  · obtain ⟨p, -, hp⟩ := Option.map_eq_some_iff.mp hx
    have hfields := congrArg Path.fields hp
    simp [Path.field] at hfields
  · obtain ⟨q, hq, rfl⟩ := Option.map_eq_some_iff.mp hp
    exact hselects.reads q hq

theorem plan_neg {s : Site} {e : Expr} (h : T.runs e.asChild) (hx : T.Suggests x) (used : Bool) :
    ∃ act, (Expr.neg s e).infer x used = Infer.visit s act ∧
      Plan T A g (turnsIn g.scope [e]) act (T.Leaves g (.neg s e)) := by
  have hplain {act : Infer Ty} (k : Rule T A g (turnsIn g.scope [e]) act T.fine) :
      Plan T A g (turnsIn g.scope [e]) (Infer.plain act) (T.Leaves g (.neg s e)) :=
    rule_value rfl k (fun _ => id) fun _ _ => True.intro
  cases e
  case int t n => exact ⟨_, rfl, hplain (rule_negatedInt t n x).fine⟩
  all_goals exact ⟨_, rfl, hplain (rule_negated h hx)⟩

theorem plan_binary {s : Site} {op : BinaryOp} {l r : Expr} (hl : T.runs l.asChild)
    (hr : T.runs r.asChild) (hx : T.Suggests x) (used : Bool) :
    ∃ act, (Expr.binary s op l r).infer x used = Infer.visit s act ∧
      Plan T A g (turnsIn g.scope [l, r]) act (T.Leaves g (.binary s op l r)) := by
  have hplain {op : BinaryOp} :
      Plan T A g (turnsIn g.scope [l, r]) (Infer.plain (Infer.binary s.span op l.asChild r.asChild x))
        (T.Leaves g (.binary s op l r)) :=
    rule_value rfl (rule_binary s.span op hl hr hx) (fun _ => id) fun _ _ => True.intro
  cases op
  case and => exact ⟨_, rfl, rule_proof rfl (rule_conjunction hl hr) fun _ => True.intro⟩
  case or => exact ⟨_, rfl, rule_proof rfl (rule_disjunction hl hr) fun _ => True.intro⟩
  all_goals exact ⟨_, rfl, hplain⟩

theorem plan_turns {α : Type} {es : List Expr} {act : Infer α} {Q : α → Spot → Prop}
    (h : Plan T A g (turnsIn g.scope es) act Q) :
    Plan T A g ((es.map (g.scope, ·)).map Turn.of) act Q := by
  rwa [List.map_map]

section

variable {s : Site}

theorem plan_literal {e : Expr} (hn : e.path? = none) {t : Ty} (ht : T.fine t) (hs : ∀ t, T.Spec g e t g) :
    Plan T A g [] (Infer.plain (pure t)) (T.Leaves g e) :=
  rule_value hn (Rule.pure fun _ => ht) (fun _ k => k) fun t _ => hs t

theorem plan_index {e i : Expr} (he : T.runs e.asChild) (hi : T.runs i.asChild) :
    Plan T A g (turnsIn g.scope [e, i]) (Infer.plain (Infer.indexed s.span e.asChild i.asChild))
      (T.Leaves g (.index s e i)) :=
  rule_value rfl (rule_indexed s.span he hi) (fun _ => .inl) fun _ _ => True.intro

theorem plan_callNode (ho : s.id = g.own) (f : String) {gs : List GenericArg} {as : List Expr}
    (hgs : ∀ e ∈ gs.flatMap (·.exprs), T.runs e.asChild) (hw : ∀ w ∈ gs.flatMap (·.annotations), T.written w)
    (has : ∀ e ∈ as, T.runs e.asChild) :
    Plan T A g (turnsIn g.scope (gs.flatMap (·.exprs) ++ as))
      (Infer.plain (Infer.call s f (GenericArg.asChildren gs) (Expr.asChildren as)))
      (T.Leaves g (.call s f gs as)) := by
  have hcall := plan_call (A := A) (g := g) ho f (runs_generics hgs hw) (forall_asChildren has)
  rw [turns_generics, turns_asChildren, exprs_asChildren, ← turnsIn_append] at hcall
  exact plan_plain rfl (hcall.imp fun _ _ _ k => ⟨.inl k.1, k.2⟩)

theorem plan_method {e : Expr} (f : String) {as : List Expr} (he : T.runs e.asChild)
    (has : ∀ e ∈ as, T.runs e.asChild) :
    Plan T A g (turnsIn g.scope (e :: as))
      (Infer.plain (Infer.methodCall s.span e.asChild f (Expr.asChildren as))) (T.Leaves g (.method s e f as)) := by
  have hcall := rule_methodCall (A := A) (g := g) s.span f he (forall_asChildren has)
  rw [turns_asChildren, exprs_asChildren] at hcall
  exact rule_value rfl hcall (fun _ k => .inl k.1) fun _ k => k.2

theorem plan_borrow {e : Expr} (m : Bool) (he : T.runs e.asChild) (hg : T.gathers e) (hx : T.Suggests x) :
    Plan T A g (turnsIn g.scope [e]) (Infer.plain (Infer.borrow s.span m e.asChild x))
      (T.Leaves g (.borrow s m e)) :=
  rule_value rfl (rule_borrow s.span m he hg hx) (fun _ => .inl) fun _ _ => True.intro

theorem plan_constructNode (ho : s.id = g.own) (name : String) {gs : List GenericArg} {fs : List FieldInit}
    (hgs : ∀ e ∈ gs.flatMap (·.exprs), T.runs e.asChild) (hw : ∀ w ∈ gs.flatMap (·.annotations), T.written w)
    (hfs : ∀ e ∈ fs.map (·.value), T.runs e.asChild) :
    Plan T A g (turnsIn g.scope (gs.flatMap (·.exprs) ++ fs.map (·.value)))
      (Infer.plain (Infer.construct s name (GenericArg.asChildren gs) (FieldInit.asChildren fs)))
      (T.Leaves g (.construct s name gs fs)) := by
  have hcall := plan_construct (A := A) (g := g) ho name (runs_generics hgs hw) (forall_fields hfs)
  rw [turns_generics, turns_fields, names_fields, ← turnsIn_append] at hcall
  exact plan_plain rfl (hcall.imp fun _ _ _ k => ⟨.inl k.1, k.2⟩)

theorem plan_array {es : List Expr} (hes : ∀ e ∈ es, T.runs e.asChild) (hg : ∀ e ∈ es.take 1, T.gathers e)
    (hx : T.Suggests x) :
    Plan T A g (turnsIn g.scope es) (Infer.plain (Infer.array s.span (Expr.asChildren es) x))
      (T.Leaves g (.array s es)) := by
  have hrule := rule_array (A := A) (g := g) s.span (forall_asChildren hes)
    (forall_head_asChild (P := fun ch => T.gathers ch.expr) hg) hx
  rw [turns_asChildren] at hrule
  exact rule_value rfl hrule (fun _ => .inl) fun _ _ => True.intro

theorem plan_tuple {es : List Expr} (hes : ∀ e ∈ es, T.runs e.asChild) (hg : ∀ e ∈ es, T.gathers e)
    (hx : T.Suggests x) :
    Plan T A g (turnsIn g.scope es) (Infer.plain (Infer.tuple (Expr.asChildren es) x))
      (T.Leaves g (.tuple s es)) := by
  have hrule := rule_tuple (A := A) (g := g) (forall_asChildren hes)
    (forall_asChildren (P := fun ch => T.gathers ch.expr) hg) hx
  rw [turns_asChildren] at hrule
  exact rule_value rfl hrule (fun _ => .inl) fun _ _ => True.intro

theorem plan_mapLit {es : List MapEntry} (hes : ∀ e ∈ es.flatMap (·.exprs), T.runs e.asChild)
    (hg : ∀ e ∈ (es.take 1).flatMap (·.exprs), T.gathers e) (hx : T.Suggests x) :
    Plan T A g (turnsIn g.scope (es.flatMap (·.exprs)))
      (Infer.plain (Infer.mapLit s.span (MapEntry.asChildren es) x)) (T.Leaves g (.mapLit s es)) := by
  have hrule := rule_mapLit (A := A) (g := g) s.span (forall_entries hes)
    (forall_head_entry (P := fun ch => T.gathers ch.expr) hg) hx
  rw [turns_entries] at hrule
  exact rule_value rfl hrule (fun _ => .inl) fun _ _ => True.intro

theorem plan_isTest {e : Expr} {w : Written} (b : Bool) (he : T.runs e.asChild)
    (ht : ∀ p ∈ e.path?.toList, T.about p) (hw : T.written w) :
    Plan T A g (turnsIn g.scope [e]) (Infer.proving (Infer.negatedIf b (Infer.isTest s.span e.asChild w)))
      (T.Leaves g (.isTest s e w b)) :=
  rule_proof rfl (rule_negatedIf b (rule_isTest s.span he (tests_of_about ht) hw)) fun _ => True.intro

theorem plan_noneCheck {e : Expr} (b : Bool) (he : T.runs e.asChild) (ht : ∀ p ∈ e.path?.toList, T.about p) :
    Plan T A g (turnsIn g.scope [e]) (Infer.proving (Infer.negatedIf b (Infer.noneCheck s.span e.asChild)))
      (T.Leaves g (.noneCheck s e b)) :=
  rule_proof rfl (rule_negatedIf b (rule_noneCheck s.span he (tests_of_about ht))) fun _ => True.intro

theorem plan_cond {a b d : Expr} (used : Bool) (ha : T.runs a.asChild) (hb : T.runs b.asChild)
    (hd : d.asChild.expr.isPresent = true → T.runs d.asChild) (hx : T.Suggests x) :
    Plan T A g (turnsIn g.scope [a, b, d])
      (Infer.plain (Infer.cond s.span a.asChild b.asChild d.asChild x used)) (T.Leaves g (.cond s a b d)) :=
  rule_value rfl (rule_cond s.span used ha hb hd hx) (fun _ k => k) fun _ _ => True.intro

theorem plan_guardBind (name : String) {v a b : Expr} (used : Bool) (hv : T.runs v.asChild)
    (ht : ∀ p ∈ v.path?.toList, T.about p) (ha : T.runs a.asChild) (hb : b.asChild.expr.isPresent = true → T.runs b.asChild)
    (hx : T.Suggests x) :
    Plan T A g ((c.partsIn T.typeOf g.scope (.guardBind s name v a b)).map Turn.of)
      (Infer.plain (Infer.guardBind s.span name v.asChild a.asChild b.asChild x used))
      (T.Leaves g (.guardBind s name v a b)) :=
  rule_value rfl (rule_guardBind s.span name used hv (tests_of_about ht) ha hb hx) (fun _ k => k)
    fun _ _ => True.intro

theorem plan_matchOn {e : Expr} {as : List Arm} {d : Expr} (used : Bool) (he : T.runs e.asChild)
    (ht : ∀ p ∈ e.path?.toList, T.about p) (has : ∀ p ∈ as.flatMap (·.exprs), T.runs p.asChild)
    (hw : ∀ w ∈ as.flatMap (·.annotations), T.written w) (hd : d.asChild.expr.isPresent = true → T.runs d.asChild)
    (hx : T.Suggests x) :
    Plan T A g (turnsIn g.scope (Expr.matchOn s e as d).parts)
      (Infer.plain (Infer.matchOn s.span e.asChild (Arm.asChildren as) d.asChild x used))
      (T.Leaves g (.matchOn s e as d)) := by
  have hrule := rule_matchOn (A := A) (g := g) s.span used he (tests_of_about ht) (runs_arms has hw) hd hx
  have hturns : turnsIn g.scope (Expr.matchOn s e as d).parts = e.asChild.turn g.scope ::
      (turnsIn g.scope (as.flatMap (·.exprs)) ++ [d.asChild.turn g.scope]) := by
    simp [turnsIn, Expr.parts, Turn.of, Child.turn, Expr.asChild]
  rw [turns_arms, ← hturns] at hrule
  exact rule_value rfl hrule (fun _ k => k) fun _ _ => True.intro

theorem plan_block {ss : List Stmt} {e : Expr} (used : Bool) (hss : ∀ p ∈ ss.flatMap (·.exprs), T.runs p.asChild)
    (hw : ∀ w ∈ ss.flatMap (·.annotations), T.written w) (he : e.isPresent = true → T.runs e.asChild)
    (hx : T.Suggests x) :
    Plan T A g ((c.partsIn T.typeOf g.scope (.block s ss e)).map Turn.of)
      (Infer.plain (Infer.block (Stmt.asChildren ss) e.asChild x used)) (T.Leaves g (.block s ss e)) := by
  have hrule := rule_block (A := A) (g := g) s used (fun d hd p hp => hss p (List.mem_flatMap.mpr ⟨d, hd, hp⟩))
    (fun d hd w hmem => hw w (List.mem_flatMap.mpr ⟨d, hd, hmem⟩)) he hx
  exact rule_value rfl hrule (fun _ k => k.1) fun _ k => k.2

theorem plan_ret {e : Expr} (he : e.asChild.expr.isPresent = true → T.runs e.asChild) :
    Plan T A g (turnsIn g.scope [e]) (Infer.plain (Infer.returned s.span e.asChild)) (T.Leaves g (.ret s e)) :=
  rule_value rfl (rule_returned s.span he) (fun _ k => .inl k.1) fun _ k => k.2

theorem plan_loop {a b : Expr} (ha : a.isPresent = true → T.runs a.asChild) (hb : T.runs b.asChild) :
    Plan T A g (turnsIn g.scope [a, b]) (Infer.plain (Infer.loop a.asChild b.asChild)) (T.Leaves g (.loop s a b)) :=
  rule_value rfl (rule_loop ha hb) (fun _ => .inl) fun _ _ => True.intro

end

-- The rule of a node checks the trees below it, each in the scope that it stands in.
theorem plan_node {e : Expr} {s : Site} (hs : e.site? = some s) (ho : s.id = g.own)
    (h : ∀ p, p ∈ e.required ∨ p ∈ e.parts ∧ p.isPresent = true → T.runs p.asChild)
    (ht : ∀ p ∈ e.ownTests, T.about p) (hw : ∀ w ∈ e.ownAnnotations, T.written w)
    (hg : ∀ p ∈ e.ownSources, T.gathers p) (hx : T.Suggests x) (used : Bool) :
    ∃ act, e.infer x used = Infer.visit s act ∧
      Plan T A g ((c.partsIn T.typeOf g.scope e).map Turn.of) act (T.Leaves g e) := by
  have hreq (p : Expr) (hp : p ∈ e.required) : T.runs p.asChild := h p (.inl hp)
  have hopt (p : Expr) (hp : p ∈ e.parts) (k : p.isPresent = true) : T.runs p.asChild := h p (.inr ⟨hp, k⟩)
  cases e
  case missing => cases hs
  all_goals
    cases hs
    simp only [Expr.required, Expr.parts, List.mem_append, List.mem_cons, List.not_mem_nil, or_false] at hreq hopt
  case int n => exact ⟨_, rfl, plan_literal rfl (.inl (good_ofInt n.toInt x)) fun _ => True.intro⟩
  case float => exact ⟨_, rfl, plan_literal rfl (.inl (good_ofFloat x)) fun _ => True.intro⟩
  case bool => exact ⟨_, rfl, plan_literal rfl (.inl (good_prim .bool)) fun _ => True.intro⟩
  case str => exact ⟨_, rfl, plan_literal rfl (.inl (good_prim .string)) fun _ => True.intro⟩
  case rune => exact ⟨_, rfl, plan_literal rfl (.inl (good_prim .rune)) fun _ => True.intro⟩
  case noneLit => exact ⟨_, rfl, plan_literal rfl (fine_ofNone hx) fun _ => True.intro⟩
  case nilLit => exact ⟨_, rfl, plan_literal rfl (fine_ofNil hx) fun _ => True.intro⟩
  case ident name => exact ⟨_, rfl, plan_name s name⟩
  case variant enum name =>
    exact ⟨_, rfl, rule_value rfl (rule_enumVariant s.span enum name) (fun _ => .inl) fun _ _ => True.intro⟩
  case field e name => exact ⟨_, rfl, plan_member s name (hreq e rfl)⟩
  case index e i => exact ⟨_, rfl, plan_index (hreq e (.inl rfl)) (hreq i (.inr rfl))⟩
  case neg e => exact plan_neg (hreq e rfl) hx used
  case not e => exact ⟨_, rfl, rule_proof rfl (rule_negation (hreq e rfl)) fun _ => True.intro⟩
  case binary op l r => exact plan_binary (hreq l (.inl rfl)) (hreq r (.inr rfl)) hx used
  case call f gs as =>
    have hcall := plan_callNode (A := A) ho f (fun p hp => hreq p (.inl hp)) hw fun p hp => hreq p (.inr hp)
    exact ⟨_, rfl, plan_turns hcall⟩
  case method e f as =>
    exact ⟨_, rfl, plan_turns (plan_method f (hreq e (.inl rfl)) fun p hp => hreq p (.inr hp))⟩
  case mutArg e =>
    exact ⟨_, rfl, rule_value rfl (rule_mutArg (hreq e rfl) hx) (fun _ k => k) fun _ _ => True.intro⟩
  case borrow m e => exact ⟨_, rfl, plan_borrow m (hreq e rfl) (hg e (List.mem_singleton_self e)) hx⟩
  case construct name gs fs =>
    have hconstruct := plan_constructNode (A := A) ho name (fun p hp => hreq p (.inl hp)) hw fun p hp => hreq p (.inr hp)
    exact ⟨_, rfl, plan_turns hconstruct⟩
  case array es => exact ⟨_, rfl, plan_turns (plan_array hreq hg hx)⟩
  case tuple es => exact ⟨_, rfl, plan_turns (plan_tuple hreq hg hx)⟩
  case mapLit es => exact ⟨_, rfl, plan_turns (plan_mapLit hreq hg hx)⟩
  case isTest e w b => exact ⟨_, rfl, plan_isTest b (hreq e rfl) ht (hw w (List.mem_singleton_self w))⟩
  case noneCheck e b => exact ⟨_, rfl, plan_noneCheck b (hreq e rfl) ht⟩
  case cond a b d =>
    exact ⟨_, rfl, plan_cond used (hreq a (.inl rfl)) (hreq b (.inr rfl)) (hopt d (.inr (.inr rfl))) hx⟩
  case guardBind name v a b =>
    exact ⟨_, rfl, plan_guardBind name used (hreq v (.inl rfl)) ht (hreq a (.inr rfl)) (hopt b (.inr (.inr rfl))) hx⟩
  case matchOn e as d =>
    have hmatch := plan_matchOn (A := A) (g := g) (s := s) used (hreq e (.inl rfl)) ht (fun p hp => hreq p (.inr hp)) hw
      (hopt d (.inr (.inr rfl))) hx
    exact ⟨_, rfl, plan_turns hmatch⟩
  case block ss e => exact ⟨_, rfl, plan_block used hreq hw (hopt e (.inr rfl)) hx⟩
  case ret e => exact ⟨_, rfl, plan_ret (hopt e rfl)⟩
  case breakLoop => exact ⟨_, rfl, rule_value rfl (rule_loopControl s.span .leave) (fun _ => .inl) fun _ _ => True.intro⟩
  case continueLoop => exact ⟨_, rfl, rule_value rfl (rule_loopControl s.span .next) (fun _ => .inl) fun _ _ => True.intro⟩
  case loop a b => exact ⟨_, rfl, plan_loop (hopt a (.inl rfl)) (hreq b rfl)⟩

theorem Expr.runs_of_plans (habout : ∀ p, T.about p) (hwritten : ∀ w, T.written w)
    (hgathers : ∀ p, T.gathers p) (hwanted : ∀ x, T.Suggests x)
    (hmissing : T.runs Expr.missing.asChild)
    (hnode : ∀ e s, e.site? = some s →
      (∀ x used σ, ∃ act Q, e.asChild.run x used = Infer.visit s act ∧
        Plan T True ⟨s.id, σ, none⟩ ((c.partsIn T.typeOf σ e).map Turn.of) act Q) → T.runs e.asChild)
    (e : Expr) : T.runs e.asChild := by
  induction e using Expr.parts_induction with
  | h e ih =>
    cases hs : e.site? with
    | none =>
      cases e
      case missing => exact hmissing
      all_goals cases hs
    | some s =>
      refine hnode e s hs fun x used σ => ?_
      have hparts (p : Expr) (hp : p ∈ e.required ∨ p ∈ e.parts ∧ p.isPresent = true) : T.runs p.asChild :=
        ih p (hp.elim Expr.mem_parts_of_mem_required And.left)
      obtain ⟨act, hrun, hplan⟩ := plan_node (A := True) (g := ⟨s.id, σ, none⟩) hs rfl hparts
        (fun p _ => habout p) (fun w _ => hwritten w) (fun p _ => hgathers p) (hwanted x) used
      exact ⟨act, _, hrun, hplan⟩

end TypeFlow
