import TypeFlow.Proofs.Infer.Footprints.Branches

namespace TypeFlow

def Stmt.assigned : Stmt → List Path
  | .assign _ t _ => t.assigned
  | _ => []

def Stmt.bound : Stmt → List String
  | .bind _ x _ _ _ => [x]
  | _ => []

namespace Expr

variable {α : Type}

def gather (own : Expr → List α) (e : Expr) : List α :=
  own e ++ e.parts.attach.flatMap fun p => p.1.gather own
termination_by sizeOf e
decreasing_by exact sizeOf_lt_of_mem_parts p.2

theorem gather_eq (own : Expr → List α) (e : Expr) : e.gather own = own e ++ e.parts.flatMap (gather own) := by
  rw [gather, List.flatMap_subtype fun _ _ => rfl, List.unattach_attach]

theorem gather_subset (own : Expr → List α) {e p : Expr} (h : p ∈ e.parts) : p.gather own ⊆ e.gather own := by
  rw [e.gather_eq]
  exact fun a ha => List.mem_append_right _ (List.mem_flatMap.mpr ⟨p, h, ha⟩)

theorem own_subset (own : Expr → List α) (e : Expr) : own e ⊆ e.gather own := by
  rw [e.gather_eq]
  exact List.subset_append_left _ _

def ownWrites (r : Registry) : Expr → List Path
  | mutArg _ e => e.path?.toList
  | borrow _ m e => if m then e.path?.toList else []
  | method _ e f _ => if r.anyMutReceiver f then e.path?.toList else []
  | loop _ _ b => b.written r
  | block _ ss _ => ss.flatMap (·.assigned)
  | _ => []

def writes (r : Registry) : Expr → List Path := gather (ownWrites r)

def ownBinders : Expr → List String
  | guardBind _ x _ _ _ => [x]
  | block _ ss _ => ss.flatMap (·.bound)
  | _ => []

def binders : Expr → List String := gather ownBinders

def inner : Expr → List Expr
  | loop _ test _ => [test]
  | e => e.parts

theorem inner_subset (e : Expr) : e.inner ⊆ e.parts := by
  cases e <;> simp [inner, parts]

def isBreak : Expr → Bool
  | breakLoop _ => true
  | _ => false

def anyInLoop (own : Expr → Bool) (e : Expr) : Bool := own e || e.inner.attach.any fun p => p.1.anyInLoop own
termination_by sizeOf e
decreasing_by exact sizeOf_lt_of_mem_parts (inner_subset e p.2)

theorem anyInLoop_eq (own : Expr → Bool) (e : Expr) : e.anyInLoop own = (own e || e.inner.any (anyInLoop own)) := by
  rw [anyInLoop, List.any_subtype fun _ _ => rfl, List.unattach_attach]

def mayBreak : Expr → Bool := anyInLoop isBreak

theorem mayBreak_eq (e : Expr) : e.mayBreak = (e.isBreak || e.inner.any mayBreak) := e.anyInLoop_eq isBreak

structure FitsIn (r : Registry) (F : Footprint) (e : Expr) : Prop where
  writes : ∀ p ∈ e.writes r, F.writes p
  tests : ∀ p ∈ e.tested, F.tests p
  binds : ∀ x ∈ e.binders, F.binds x
  leaves : e.mayBreak = true → F.leaves

namespace FitsIn

variable {r : Registry} {F : Footprint} {e p : Expr}

theorem part (h : e.FitsIn r F) (hp : p ∈ e.parts) (hl : p.mayBreak = true → F.leaves) : p.FitsIn r F where
  writes q hq := h.writes q (gather_subset _ hp hq)
  tests q hq := h.tests q (by rw [e.tested_eq]; exact List.mem_append_right _ (List.mem_flatMap.mpr ⟨p, hp, hq⟩))
  binds x hx := h.binds x (gather_subset _ hp hx)
  leaves := hl

theorem inner (h : e.FitsIn r F) (hp : p ∈ e.inner) : p.FitsIn r F := by
  refine h.part (inner_subset e hp) fun hl => h.leaves ?_
  rw [e.mayBreak_eq, List.any_eq_true.mpr ⟨p, hp, hl⟩, Bool.or_true]

theorem looped (h : e.FitsIn r F) (hp : p ∈ e.parts) : p.FitsIn r F.looped :=
  FitsIn.part (F := F.looped) ⟨h.writes, h.tests, h.binds, fun _ => True.intro⟩ hp fun _ => True.intro

theorem ownTests (h : e.FitsIn r F) : ∀ q ∈ e.ownTests, F.tests q := fun q hq =>
  h.tests q (by rw [e.tested_eq]; exact List.mem_append_left _ hq)

end FitsIn

end Expr

namespace Infer

variable {c : BodyContext} {F : Footprint} {act : Infer Ty} {x : Option Ty}

theorem treads_plain (h : Inside c F act) : Treads c F (plain act) fun t => F.Allows t.facts :=
  h.map fun _ _ => Footprint.allows_empty

theorem treads_proving {act : Infer Facts} (h : Treads c F act F.Allows) :
    Treads c F (proving act) fun t => F.Allows t.facts := h.map fun _ h => h

theorem mayTest_of_own {e : Expr} (h : ∀ p ∈ e.path?.toList, F.tests p) : e.asChild.MayTest F :=
  fun p hp => h p (Option.mem_toList.mpr hp)

theorem mayWrite_of_own {e : Expr} (h : ∀ p ∈ e.path?.toList, F.writes p) : e.asChild.MayWrite F :=
  fun p hp => h p (Option.mem_toList.mpr hp)

theorem treads_neg {s : Site} {e : Expr} (h : e.asChild.Treads c F) (x : Option Ty) (used : Bool) :
    Treads c F ((Expr.neg s e).infer x used) fun t => F.Allows t.facts := by
  cases e
  case int t v => exact treads_visit s (treads_plain (treads_negatedInt t v x))
  all_goals exact treads_visit s (treads_plain (treads_negated h x))

theorem treads_operator {s : Site} {op : BinaryOp} {l r : Expr} (hl : l.asChild.Treads c F)
    (hr : r.asChild.Treads c F) (x : Option Ty) (used : Bool) :
    Treads c F ((Expr.binary s op l r).infer x used) fun t => F.Allows t.facts := by
  cases op
  case and => exact treads_visit s (treads_proving (treads_conjunction hl hr))
  case or => exact treads_visit s (treads_proving (treads_disjunction hl hr))
  all_goals exact treads_visit s (treads_plain (treads_binary s.span _ hl hr x))

theorem treads_statements {ss : List Stmt} (h : ∀ e ∈ ss.flatMap (·.exprs), e.asChild.Treads c F)
    (hw : ∀ p ∈ ss.flatMap (·.assigned), F.writes p) (hb : ∀ x ∈ ss.flatMap (·.bound), F.binds x) :
    ∀ st ∈ Stmt.asChildren ss, st.Treads c F := by
  induction ss with
  | nil => exact List.forall_mem_nil _
  | cons st ss ih =>
    have hss := ih (fun e he => h e (by simp [he])) (fun p hp => hw p (by simp [hp])) fun x hx => hb x (by simp [hx])
    cases st with
    | bind s name m w e =>
      exact List.forall_mem_cons.mpr ⟨⟨h e (by simp [Stmt.exprs]), hb name (by simp [Stmt.bound])⟩, hss⟩
    | assign s t e =>
      refine List.forall_mem_cons.mpr ⟨⟨h t (by simp [Stmt.exprs]), h e (by simp [Stmt.exprs]), ?_⟩, hss⟩
      exact fun p hp => hw p (List.mem_append_left _ hp)
    | expr s e => exact List.forall_mem_cons.mpr ⟨h e (by simp [Stmt.exprs]), hss⟩

theorem treads_armList {as : List Arm} (h : ∀ e ∈ as.flatMap (·.exprs), e.asChild.Treads c F) :
    ∀ a ∈ Arm.asChildren as, a.Treads c F := fun a ha =>
  have hparts := forall_arms (W := fun _ => True) h (fun _ _ => True.intro) a ha
  ⟨hparts.1, hparts.2.2⟩

theorem treads_genericList {gs : List GenericArg} (h : ∀ e ∈ gs.flatMap (·.exprs), e.asChild.Treads c F) :
    ∀ g ∈ GenericArg.asChildren gs, g.Treads c F := fun g hg =>
  (forall_generics (W := fun _ => True) h (fun _ _ => True.intro) g hg).1

theorem treads_next (span : Span) : Inside c F (loopControl span .next) :=
  (Treads.loopControl (k := .next) span nofun).trivial

theorem treads_node {e : Expr} (hf : e.FitsIn c.registry F)
    (h : ∀ p ∈ e.inner, p.asChild.Treads c F) (hl : ∀ p ∈ e.parts, p.asChild.Treads c F.looped)
    (x : Option Ty) (used : Bool) : Treads c F (e.infer x used) fun t => F.Allows t.facts := by
  have htests := hf.ownTests
  have hwrites : ∀ p ∈ e.ownWrites c.registry, F.writes p := fun p hp => hf.writes p (Expr.own_subset _ e hp)
  have hbinds : ∀ x ∈ e.ownBinders, F.binds x := fun x hx => hf.binds x (Expr.own_subset _ e hx)
  cases e
  case missing => exact .pure Footprint.allows_empty
  all_goals simp only [Expr.inner, Expr.parts, List.mem_append, List.mem_cons, List.not_mem_nil, or_false] at h hl
  case int s v | float s | bool s v | str s v | rune s v | noneLit s | nilLit s =>
    exact treads_visit s (treads_plain (.done _))
  case ident s name => exact treads_visit s (treads_plain (treads_ident s.span name))
  case variant s enum name => exact treads_visit s (treads_plain (treads_enumVariant s.span enum name))
  case field s e name => exact treads_visit s (treads_plain (treads_field s.span (h e rfl) name))
  case index s e i => exact treads_visit s (treads_plain (treads_indexed s.span (h e (.inl rfl)) (h i (.inr rfl))))
  case neg s e => exact treads_neg (h e rfl) x used
  case not s e => exact treads_visit s (treads_proving (treads_negation (h e rfl)))
  case binary s op l r => exact treads_operator (h l (.inl rfl)) (h r (.inr rfl)) x used
  case call s f gs as =>
    exact treads_visit s (treads_plain (treads_call s f (treads_genericList fun p hp => h p (.inl hp))
      (forall_asChildren fun p hp => h p (.inr hp))))
  case method s e f as =>
    refine treads_visit s (treads_plain (treads_methodCall s.span (h e (.inl rfl)) f (fun hm => ?_)
      (forall_asChildren fun p hp => h p (.inr hp))))
    refine mayWrite_of_own fun p hp => hwrites p ?_
    rwa [Expr.ownWrites, if_pos hm]
  case mutArg s e => exact treads_visit s (treads_plain (treads_mutArg (h e rfl) (mayWrite_of_own hwrites) x))
  case borrow s m e =>
    refine treads_visit s (treads_plain (treads_borrow s.span m (h e rfl) (fun hm => ?_) x))
    refine mayWrite_of_own fun p hp => hwrites p ?_
    rwa [Expr.ownWrites, if_pos hm]
  case construct s name gs fs =>
    exact treads_visit s (treads_plain (treads_construct s name (treads_genericList fun p hp => h p (.inl hp))
      (forall_fields fun p hp => h p (.inr hp))))
  case array s es => exact treads_visit s (treads_plain (treads_array s.span (forall_asChildren h) x))
  case tuple s es => exact treads_visit s (treads_plain (treads_tuple (forall_asChildren h) x))
  case mapLit s es => exact treads_visit s (treads_plain (treads_mapLit s.span (forall_entries h) x))
  case isTest s e w n =>
    exact treads_visit s (treads_proving (treads_negatedIf n (treads_isTest s.span (h e rfl) (mayTest_of_own htests) w)))
  case noneCheck s e n =>
    exact treads_visit s (treads_proving (treads_negatedIf n (treads_noneCheck s.span (h e rfl) (mayTest_of_own htests))))
  case cond s a b d =>
    exact treads_visit s (treads_plain (treads_cond s.span (h a (.inl rfl)) (h b (.inr (.inl rfl)))
      (h d (.inr (.inr rfl))) x used))
  case guardBind s name a b d =>
    exact treads_visit s (treads_plain (treads_guardBind s.span (hbinds name (List.mem_singleton_self name))
      (h a (.inl rfl)) (mayTest_of_own htests) (h b (.inr (.inl rfl))) (h d (.inr (.inr rfl))) x used))
  case matchOn s e as d =>
    exact treads_visit s (treads_plain (treads_matchOn s.span (h e (.inl rfl)) (mayTest_of_own htests)
      (treads_armList fun p hp => h p (.inr (.inl hp))) (h d (.inr (.inr rfl))) x used))
  case block s ss e =>
    exact treads_visit s (treads_plain (treads_block (treads_statements (fun p hp => h p (.inl hp)) hwrites hbinds)
      (h e (.inr rfl)) x used))
  case ret s e => exact treads_visit s (treads_plain (treads_returned s.span (h e rfl)))
  case breakLoop s =>
    exact treads_visit s (treads_plain (Treads.loopControl s.span fun _ => hf.leaves (by rw [Expr.mayBreak_eq]; rfl)).trivial)
  case continueLoop s => exact treads_visit s (treads_plain (treads_next s.span))
  case loop s a b =>
    exact treads_visit s (treads_plain (treads_loop (h a rfl) (hl b (.inr rfl)) hwrites))

end Infer

theorem Expr.treads (c : BodyContext) (e : Expr) {F : Footprint} (h : e.FitsIn c.registry F) :
    e.asChild.Treads c F := by
  induction e using Expr.parts_induction generalizing F with
  | h e ih =>
    exact fun x used => Infer.treads_node h (fun p hp => ih p (e.inner_subset hp) (h.inner hp))
      (fun p hp => ih p hp (h.looped hp)) x used

end TypeFlow
