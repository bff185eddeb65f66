import TypeFlow.Proofs.Flow.Clearing
import TypeFlow.Proofs.Infer.Tree

namespace TypeFlow

open BodyState (Continues Restores)

def BodyInvariant.layered (c : BodyContext) (about : Path → Prop) (fits : Layer → Prop)
    (apply : ∀ {l f}, fits l → about f.path → fits (l.apply c.registry f))
    (merge : ∀ {l m}, fits l → fits m → fits (l.merge c.registry m))
    (invalidate : ∀ {l} (q), fits l → fits (l.invalidate q)) : BodyInvariant c where
  good _ := True
  about := about
  fits := fits
  holds s := fits s.flow.top
  laws := .trivial c
  good_error := True.intro
  report _ _ h := h
  store _ h _ := h
  recordInst _ h _ := h
  takeVars _ h := h
  loopDepth _ h := h
  entry _ _ := True.intro
  top h := h
  setTop _ hl := hl
  push _ hl := hl
  pop hs _ := hs
  apply hl ha _ _ := apply hl ha
  merge := merge
  invalidate := invalidate
  lookup _ _ := True.intro
  bind _ _ h _ := h
  enter h := h
  leave _ ht := ht

-- While `on` is set nothing is known of the path; without it the invariant says nothing of the layer
-- and only follows the run.
def BodyInvariant.tracking (c : BodyContext) (p : Path) (on : Bool) : BodyInvariant c :=
  layered c (fun q => on = true → q.startsWith p = false) (fun l => on = true → l.Clear p)
    (fun hl ha hon => (hl hon).apply (ha hon)) (fun hl _ hon => (hl hon).merge _)
    (fun q hl hon => (hl hon).invalidate q)

variable (c : BodyContext) (p : Path) {α β : Type}

namespace Infer

def ClearsFrom (s : BodyState) (x : Infer α) : Prop :=
  (x.after c s).aborted = false → (x.after c s).flow.top.Clear p

def Clears (x : Infer α) : Prop := ∀ s, ClearsFrom c p s x

def Follows (x : Infer α) : Prop :=
  ∀ on, (BodyInvariant.tracking c p on).Keeps Continues (fun _ => True) x

end Infer

namespace Child

def Clears (ch : Child) : Prop := ∀ x used, Infer.Clears c p (ch.run x used)

def Follows (ch : Child) : Prop := ∀ on, (BodyInvariant.tracking c p on).Checks ch

end Child

variable {c p}

theorem BodyInvariant.suggests_any {on : Bool} (x : Option Ty) : (tracking c p on).theory.Suggests x :=
  fun _ _ => .inl True.intro

namespace Infer

variable {x : Infer α} {f : α → Infer β}

theorem follows_of_rule {us : Bool → Spot → List Turn} {Q : Bool → Spot → α → Prop}
    (h : ∀ on g, Rule (BodyInvariant.tracking c p on).theory True g (us on g) x (Q on g)) :
    Follows c p x := fun on => (Rule.keeps (h on)).continues.trivial

theorem follows_pure (a : α) : Follows c p (pure a) := fun _ => .pure True.intro

theorem Follows.bind (hx : Follows c p x) (hf : ∀ a, Follows c p (f a)) : Follows c p (x >>= f) :=
  fun on => (hx on).bind fun a _ => hf a on

theorem follows_requireAssignable (span : Span) (t u : Ty) :
    Follows c p (requireAssignable span t u) :=
  follows_of_rule fun _ _ => rule_requireAssignable span t u

theorem follows_report (span : Span) (cause : Cause) : Follows c p (report span cause) :=
  follows_of_rule fun _ _ => rule_report span cause

theorem follows_recordInst (i : Nat) (inst : Instantiation) : Follows c p (recordInst i inst) :=
  fun _ _ hs => ⟨hs, ⟨rfl, rfl, rfl, List.prefix_refl _, id⟩, True.intro⟩

theorem follows_assignable (t u : Ty) : Follows c p (assignable t u) :=
  fun _ s hs => ⟨hs, .refl s, True.intro⟩

theorem Follows.aborted (h : Follows c p x) {s : BodyState} (k : (x.after c s).aborted = false) :
    s.aborted = false := by
  obtain ⟨-, hcont, -⟩ := h false s nofun
  cases hs : s.aborted with
  | false => rfl
  | true => exact absurd (hcont.aborted hs) (by simp [k])

theorem Follows.clear (h : Follows c p x) {s : BodyState} (k : s.flow.top.Clear p) :
    (x.after c s).flow.top.Clear p := (h true s fun _ => k).1 rfl

theorem ClearsFrom.bind_left {s : BodyState} (hx : ClearsFrom c p s x)
    (hf : ∀ a, Follows c p (f a)) : ClearsFrom c p s (x >>= f) := by
  intro h
  rw [after_bind] at h ⊢
  exact (hf _).clear (hx ((hf _).aborted h))

theorem ClearsFrom.visit (site : Site) {s : BodyState} {x : Infer Typed} (hx : ClearsFrom c p s x) :
    ClearsFrom c p s (visit site x) := by
  intro h
  cases hs : s.aborted with
  | true =>
    rw [(run_visit_of_aborted c site x hs).1] at h
    exact absurd hs (by simp [h])
  | false =>
    obtain ⟨hflow, haborted⟩ := flow_visit c site x hs
    rw [hflow]
    exact hx (haborted.symm.trans h)

namespace Clears

theorem bind_left (hx : Clears c p x) (hf : ∀ a, Follows c p (f a)) : Clears c p (x >>= f) :=
  fun s => (hx s).bind_left hf

theorem bind_right (hf : ∀ a, Clears c p (f a)) : Clears c p (x >>= f) := by
  intro s h
  rw [after_bind] at h ⊢
  exact hf _ _ h

theorem registry_bind {f : Registry → Infer β} (hf : Clears c p (f c.registry)) :
    Clears c p (registry >>= f) := hf

theorem discard (hx : Clears c p x) : Clears c p (discard x) := hx

theorem ite_bind {b : Prop} [Decidable b] {y : Infer α} (hx : Clears c p (x >>= f))
    (hy : Clears c p (y >>= f)) : Clears c p ((if b then x else y) >>= f) := by
  split
  · exact hx
  · exact hy

theorem plain {x : Infer Ty} (hx : Clears c p x) : Clears c p (plain x) :=
  hx.bind_left fun _ => follows_pure _

theorem proving {x : Infer Facts} (hx : Clears c p x) : Clears c p (proving x) :=
  hx.bind_left fun _ => follows_pure _

theorem visit (site : Site) {x : Infer Typed} (hx : Clears c p x) : Clears c p (visit site x) :=
  fun s => (hx s).visit site

end Clears

theorem clears_write {q : Path} (span : Span) (h : p.startsWith q = true) :
    Clears c p (write q span) := Clears.bind_right fun _ _ _ => Layer.clear_invalidate _ h

end Infer

namespace Child.Clears

open Infer

variable {ch : Child} (h : ch.Clears c p)

include h

theorem inferIn (x : Option Ty) (used : Bool) : Infer.Clears c p (ch.inferIn x used) :=
  (h x used).bind_left fun _ => follows_pure _

theorem infer (x : Option Ty) : Infer.Clears c p (ch.infer x) := h.inferIn x true

theorem check (t : Ty) : Infer.Clears c p (check ch t) :=
  (h.infer _).bind_left fun _ => (follows_requireAssignable _ _ _).bind fun _ => follows_pure _

theorem condition : Infer.Clears c p (condition ch) :=
  (h _ true).bind_left fun _ => (follows_requireAssignable _ _ _).bind fun _ => follows_pure _

end Child.Clears

theorem Child.Follows.infer {ch : Child} (h : ch.Follows c p) (x : Option Ty) :
    Infer.Follows c p (ch.infer x) :=
  Infer.follows_of_rule fun on _ => rule_infer (h on) (fun _ => BodyInvariant.suggests_any x) fun _ _ => rfl

def Child.known (e : Expr) (t : Ty) : Child := ⟨e, fun _ _ => return ⟨t, {}⟩⟩

inductive ClearsAmong (c : BodyContext) (p : Path) : List Child → Prop
  | here {ch : Child} {cs : List Child} : ch.Clears c p → (∀ d ∈ cs, d.Follows c p) →
    ClearsAmong c p (ch :: cs)
  | later {ch : Child} {cs : List Child} : ClearsAmong c p cs → ClearsAmong c p (ch :: cs)

namespace Infer

open BodyInvariant (suggests_any)

variable {cs : List Child}

theorem clears_inferAll (h : ClearsAmong c p cs) : Clears c p (inferAll cs) := by
  induction h with
  | here h hcs =>
    exact (h.infer none).discard.bind_left fun _ => follows_of_rule fun on _ =>
      rule_inferAll fun d hd => hcs d hd on
  | later _ ih => exact .bind_right fun _ => ih

theorem clears_checkArgs (target : Nat → Option Ty) (i : Nat) (h : ClearsAmong c p cs) :
    Clears c p (checkArgs target i cs) := by
  induction h generalizing i with
  | @here ch cs h hcs =>
    have hrest : ∀ _ : PUnit, Follows c p (checkArgs target (i + 1) cs) := fun _ =>
      follows_of_rule fun on _ => rule_checkArgs (fun _ _ => suggests_any _) _ fun d hd => hcs d hd on
    unfold checkArgs
    split
    · exact (h.check _).discard.bind_left hrest
    · exact (h.infer none).discard.bind_left hrest
  | later _ ih =>
    unfold checkArgs
    split <;> exact .bind_right fun _ => ih (i + 1)

theorem clears_arity (span : Span) (n : Nat) (variadic : Bool) {f : Bool → Infer α}
    (h : ClearsAmong c p cs) (hf : Clears c p (f true)) (k : Follows c p (f false)) :
    Clears c p (arity span cs n variadic >>= f) := by
  unfold arity
  extract_lets expected
  refine .ite_bind hf ?_
  simp only [bind_assoc, pure_bind]
  exact (clears_inferAll h).bind_left fun _ => Follows.bind (follows_report _ _) fun _ => k

section Generics

variable {args : List (Child × Ty)}

theorem clears_firstType {a : Child × Ty} (h : a.1.Clears c p) : Clears c p (firstType a) := by
  unfold Infer.firstType
  split
  · exact h.infer none
  · exact h.check _

theorem clears_firstTypes (h : ClearsAmong c p (args.map (·.1))) : Clears c p (firstTypes args) := by
  induction args with
  | nil => cases h
  | cons a args ih =>
    cases h with
    | here h hcs =>
      have hrest : Follows c p (firstTypes args) := follows_of_rule fun on _ => rule_firstTypes
        fun b hb => ⟨hcs b.1 (List.mem_map_of_mem hb) on, fun _ => True.intro⟩
      exact (clears_firstType h).bind_left fun _ => hrest.bind fun _ => follows_pure _
    | later h => exact .bind_right fun _ => (ih h).bind_left fun _ => follows_pure _

theorem clears_checkInstantiated (inst : Instantiation) (h : ClearsAmong c p (args.map (·.1))) :
    Clears c p (checkInstantiated inst args) := by
  induction args with
  | nil => cases h
  | cons a args ih =>
    obtain ⟨ch, pattern⟩ := a
    cases h with
    | here h hcs =>
      refine (h.check _).discard.bind_left fun _ => follows_of_rule fun on _ =>
        rule_checkInstantiated (fun a ha => ?_) fun _ _ _ => True.intro
      exact hcs a.1 (List.mem_map_of_mem ha) on
    | later h => exact .bind_right fun _ => ih h

theorem follows_secondPass (inst : Instantiation) (ss : List ArgState)
    (hlit : ∀ a ∈ args, a.1.expr.isUntypedLiteral = true → a.1.Follows c p) :
    Follows c p (secondPass inst args ss) := by
  induction args generalizing ss with
  | nil => cases ss <;> exact follows_pure _
  | cons a args ih =>
    cases ss with
    | nil => exact follows_pure _
    | cons s ss =>
      have hrest := ih ss fun b hb => hlit b (by simp [hb])
      cases s with
      | checked => exact hrest
      | inferred found =>
        unfold secondPass
        dsimp only
        split
        · next h =>
          exact Follows.bind (follows_of_rule fun on _ => rule_checked (hlit a (by simp) h on) fun _ =>
            .inl True.intro) fun _ => hrest
        · refine (follows_assignable _ _).bind fun b => ?_
          split
          · exact hrest
          · exact Follows.bind (follows_report _ _) fun _ => hrest

theorem clears_instantiate (span : Span) (gs : Generics) (explicit : List GenericChild)
    (h : ClearsAmong c p (args.map (·.1)))
    (hlit : ∀ a ∈ args, a.1.expr.isUntypedLiteral = true → a.1.Follows c p) :
    Clears c p (instantiate span gs explicit args) := by
  cases hexplicit : explicit.isEmpty with
  | true =>
    rw [instantiate_of_isEmpty span gs args hexplicit]
    refine (clears_firstTypes h).bind_left fun ts => ?_
    refine Follows.bind (follows_of_rule fun _ _ => .solve fun _ _ => True.intro) fun r => ?_
    cases r with
    | ok inst => exact (follows_secondPass inst _ hlit).bind fun _ => follows_pure _
    | error e => exact Follows.bind (follows_report _ _) fun _ => follows_pure _
  | false =>
    unfold instantiate
    rw [if_neg (by simp [hexplicit])]
    refine .bind_right fun given => .bind_right fun r => .bind_right fun d => ?_
    split
    · exact (clears_checkInstantiated _ h).bind_left fun _ => follows_pure _
    · refine (clears_inferAll h).bind_left fun _ => ?_
      exact Follows.bind (follows_report _ _) fun _ => follows_pure _

end Generics

theorem clears_callLocal (span : Span) (callee : String) (t : Ty) (h : ClearsAmong c p cs) :
    Clears c p (callLocal span callee t cs) := by
  unfold callLocal
  split
  · refine clears_arity span _ _ h ?_ (follows_pure _)
    exact (clears_checkArgs _ 0 h).bind_left fun _ => follows_pure _
  · exact (clears_inferAll h).bind_left fun _ => follows_pure _
  · exact (clears_inferAll h).bind_left fun _ => follows_report _ _

theorem clears_callFunction (site : Site) (sig : Signature) (explicit : List GenericChild)
    (h : ClearsAmong c p cs) (hlit : ∀ ch ∈ cs, ch.expr.isUntypedLiteral = true → ch.Follows c p) :
    Clears c p (callFunction site sig explicit cs) := by
  unfold callFunction
  split
  · split
    · exact (clears_inferAll h).bind_left fun _ => follows_report _ _
    · refine clears_arity _ _ _ h ?_ (follows_pure _)
      exact (clears_checkArgs _ 0 h).bind_left fun _ => follows_pure _
  · refine clears_arity _ _ _ h ?_ (follows_pure _)
    extract_lets patterns
    have hargs : ClearsAmong c p ((cs.zip patterns).map (·.1)) := by
      rw [List.map_fst_zip (by simp [patterns])]
      exact h
    refine (clears_instantiate _ _ _ hargs fun a ha => ?_).bind_left fun o => ?_
    · exact hlit a.1 (List.of_mem_zip ha).1
    · split
      · next inst =>
        exact (follows_recordInst site.id inst).bind fun _ => follows_pure _
      · exact follows_pure _

theorem clears_call (site : Site) (callee : String) (explicit : List GenericChild)
    (h : ClearsAmong c p cs) (hlit : ∀ ch ∈ cs, ch.expr.isUntypedLiteral = true → ch.Follows c p) :
    Clears c p (call site callee explicit cs) := by
  refine .bind_right fun o => ?_
  split
  · exact .bind_right fun _ => clears_callLocal _ _ _ h
  · refine .bind_right fun r => ?_
    split
    · exact clears_callFunction site _ explicit h hlit
    · exact (clears_inferAll h).bind_left fun _ => follows_report _ _

theorem clears_methodCall_args (span : Span) (recv : Child) (x : String) (h : ClearsAmong c p cs) :
    Clears c p (methodCall span recv x cs) := by
  refine .bind_right fun t => ?_
  split
  · exact (clears_inferAll h).bind_left fun _ => follows_pure _
  · refine .bind_right fun r => ?_
    split
    · exact (clears_inferAll h).bind_left fun _ => follows_report _ _
    · next found _ =>
      have hend := follows_of_rule (c := c) (p := p) fun _ _ => rule_writeWhen
        found.method.mutReceiver recv.path? span (Q := fun _ => True)
        (t := found.method.sig.ret.substParams found.receiverArgs) fun _ => True.intro
      refine clears_arity _ _ _ h ?_ hend
      exact (clears_checkArgs _ 0 h).bind_left fun _ => hend

section Operands

open BodyInvariant

variable {ch left right : Child}

theorem follows_known (e : Expr) (t : Ty) : (Child.known e t).Follows c p :=
  fun _ _ _ _ => .pure ⟨True.intro, goodFacts_empty _⟩

theorem clears_operand (rule : Child → Infer α) (x : Option Ty)
    (hrule : rule ch = ch.infer x >>= fun t => rule (.known ch.expr t)) (h : ch.Clears c p)
    (k : ∀ t, Follows c p (rule (.known ch.expr t))) : Clears c p (rule ch) := by
  rw [hrule]
  exact (h.infer x).bind_left k

theorem clears_methodCall (span : Span) (x : String) (h : ch.Clears c p)
    (hcs : ∀ d ∈ cs, d.Follows c p) : Clears c p (methodCall span ch x cs) :=
  clears_operand (methodCall span · x cs) none rfl h fun t => follows_of_rule fun on _ =>
    rule_methodCall span x (follows_known _ t on) fun d hd => hcs d hd on

theorem clears_mutArg (h : ch.Clears c p) (x : Option Ty) : Clears c p (mutArg ch x) :=
  clears_operand (mutArg · x) x rfl h fun t => follows_of_rule fun on _ =>
    rule_mutArg (follows_known _ t on) (suggests_any x)

theorem clears_borrow (span : Span) (m : Bool) (h : ch.Clears c p) (x : Option Ty) :
    Clears c p (borrow span m ch x) :=
  clears_operand (borrow span m · x) _ rfl h fun t => follows_of_rule fun on _ =>
    rule_borrow span m (follows_known _ t on) True.intro (suggests_any x)

theorem clears_writeIf {path : Option Path} (span : Span) {y : Infer α}
    (h : path.any p.startsWith = true) (hy : Follows c p y) :
    Clears c p (match path with
      | some q => do
        write q span
        y
      | none => y) := by
  cases path with
  | none => cases h
  | some q => exact (clears_write span h).bind_left fun _ => hy

theorem clears_mutArg_path (h : ch.path?.any p.startsWith = true) (x : Option Ty) :
    Clears c p (mutArg ch x) := by
  unfold mutArg
  exact .bind_right fun _ => clears_writeIf _ h (follows_pure _)

theorem clears_borrow_path (span : Span) (h : ch.path?.any p.startsWith = true) (x : Option Ty) :
    Clears c p (borrow span true ch x) := by
  unfold borrow
  exact .bind_right fun _ => clears_writeIf _ h (follows_pure _)

theorem clears_methodCall_known (span : Span) {e : Expr} {t : Ty} {x : String} 
    {found : Registry.FoundMethod} (he : e.path?.any p.startsWith = true) (ht : t.isError = false)
    (hfound : c.registry.findMethod t x = some found) (hmut : found.method.mutReceiver = true)
    (cs : List Child) : Clears c p (methodCall span (.known e t) x cs) := by
  have hinfer : (Child.known e t).infer none = pure t := rfl
  unfold methodCall
  rw [hinfer, pure_bind, if_neg (by simp [ht])]
  refine .registry_bind ?_
  rw [hfound]
  have hend := clears_writeIf span (c := c) he
    (follows_pure (found.method.sig.ret.substParams found.receiverArgs))
  simp only [hmut, if_true]
  refine .bind_right fun fits => ?_
  split
  · exact .bind_right fun _ => hend
  · exact hend

theorem clears_field (span : Span) (x : String) (h : ch.Clears c p) :
    Clears c p (field span ch x) :=
  clears_operand (field span · x) none rfl h fun t => follows_of_rule fun on _ =>
    rule_field span x (follows_known _ t on)

theorem clears_negated (h : ch.Clears c p) (x : Option Ty) : Clears c p (negated ch x) :=
  clears_operand (negated · x) x rfl h fun t => follows_of_rule fun on _ =>
    rule_negated (follows_known _ t on) (suggests_any x)

theorem clears_isTest (span : Span) (w : Written) (h : ch.Clears c p) (hp : ch.path? = none) :
    Clears c p (isTest span ch w) :=
  clears_operand (isTest span · w) none rfl h fun t => follows_of_rule fun on _ =>
    rule_isTest span (follows_known _ t on) (fun _ hq => nomatch hp.symm.trans hq) True.intro

theorem clears_noneCheck (span : Span) (h : ch.Clears c p) (hp : ch.path? = none) :
    Clears c p (noneCheck span ch) :=
  clears_operand (noneCheck span ·) none rfl h fun t => follows_of_rule fun on _ =>
    rule_noneCheck span (follows_known _ t on) fun _ hq => nomatch hp.symm.trans hq

theorem clears_negatedIf (b : Bool) {x : Infer Facts} (h : Clears c p x) :
    Clears c p (negatedIf b x) := h.bind_left fun _ => follows_pure _

theorem clears_negation (h : ch.Clears c p) : Clears c p (negation ch) :=
  h.condition.bind_left fun _ => follows_pure _

theorem operandTypes_known (e d : Expr) (t u : Ty) (x : Option Ty) :
    operandTypes (.known e t) (.known d u) x = pure (t, u) := by
  unfold operandTypes
  split <;> rfl

theorem clears_operandTypes (x : Option Ty)
    (h : left.Clears c p ∧ right.Follows c p ∨
      right.Clears c p ∧ (left.expr.isUntypedLiteral = true → left.Follows c p)) :
    Clears c p (operandTypes left right x) := by
  unfold operandTypes
  split
  · next hlit =>
    rcases h with ⟨hl, -⟩ | ⟨hr, hleft⟩
    · exact .bind_right fun _ => (hl.infer _).bind_left fun _ => follows_pure _
    · have hliteral := (Bool.and_eq_true_iff.mp hlit).1
      exact (hr.infer x).bind_left fun _ => ((hleft hliteral).infer _).bind fun _ => follows_pure _
  · rcases h with ⟨hl, hright⟩ | ⟨hr, -⟩
    · exact (hl.infer x).bind_left fun _ => (hright.infer _).bind fun _ => follows_pure _
    · exact .bind_right fun _ => (hr.infer _).bind_left fun _ => follows_pure _

theorem clears_binary (span : Span) (op : BinaryOp) (x : Option Ty)
    (h : left.Clears c p ∧ right.Follows c p ∨
      right.Clears c p ∧ (left.expr.isUntypedLiteral = true → left.Follows c p)) :
    Clears c p (binary span op left right x) := by
  have hrest : binary span op left right x = (do
      let ts ← operandTypes left right (if op.isComparison then none else x)
      binary span op (.known left.expr ts.1) (.known right.expr ts.2) x) := by
    simp only [binary, operandTypes_known, pure_bind]
  rw [hrest]
  exact (clears_operandTypes _ h).bind_left fun ts => follows_of_rule fun on _ =>
    rule_binary span op (follows_known _ _ on) (follows_known _ _ on) (suggests_any x)

theorem clears_indexed (span : Span) (h : left.Clears c p) (k : right.Follows c p) :
    Clears c p (indexed span left right) :=
  clears_operand (indexed span · right) none rfl h fun t => follows_of_rule fun on _ =>
    rule_indexed span (follows_known _ t on) (k on)

theorem clears_integerIndex (h : ch.Clears c p) : Clears c p (integerIndex ch) :=
  clears_operand integerIndex _ rfl h fun t => follows_of_rule fun on _ =>
    rule_integerIndex (follows_known _ t on)

theorem clears_indexed_index (span : Span) (left : Child) (h : right.Clears c p) :
    Clears c p (indexed span left right) := by
  refine .bind_right fun t => ?_
  split
  · exact (h.infer none).discard.bind_left fun _ => follows_pure _
  · split
    · exact (clears_integerIndex h).bind_left fun _ => follows_pure _
    · exact (clears_integerIndex h).bind_left fun _ => follows_pure _
    · exact (clears_integerIndex h).bind_left fun _ => follows_pure _
    · exact (h.check _).discard.bind_left fun _ => follows_pure _
    · exact (h.infer none).discard.bind_left fun _ => follows_report _ _

theorem follows_checkAll (t : Ty) (h : ∀ d ∈ cs, d.Follows c p) : Follows c p (checkAll t cs) :=
  follows_of_rule fun on _ => rule_checkAll (fun _ => .inl True.intro) fun d hd => h d hd on

theorem clears_checkAll (t : Ty) (h : ClearsAmong c p cs) : Clears c p (checkAll t cs) := by
  induction h with
  | here h hcs => exact (h.check t).discard.bind_left fun _ => follows_checkAll t hcs
  | later _ ih => exact .bind_right fun _ => ih

theorem clears_array (span : Span) (x : Option Ty) (h : ClearsAmong c p cs) :
    Clears c p (array span cs x) := by
  unfold array
  split
  · exact (clears_checkAll _ h).bind_left fun _ => follows_pure _
  · exact (clears_checkAll _ h).bind_left fun _ => follows_pure _
  · cases h with
    | here h hcs =>
      exact (h.infer none).bind_left fun t => (follows_checkAll t hcs).bind fun _ => follows_pure _
    | later h => exact .bind_right fun t => (clears_checkAll t h).bind_left fun _ => follows_pure _

theorem clears_inferEach (hints : List (Option Ty)) (h : ClearsAmong c p cs) :
    Clears c p (inferEach cs hints) := by
  induction h generalizing hints with
  | @here ch cs h hcs =>
    have hrest : Follows c p (inferEach cs hints.tail) := follows_of_rule fun on _ =>
      rule_inferEach (fun d hd => hcs d hd on) (fun _ _ => True.intro) fun _ _ => suggests_any _
    exact (h.infer _).bind_left fun _ => hrest.bind fun _ => follows_pure _
  | later _ ih => exact .bind_right fun _ => (ih _).bind_left fun _ => follows_pure _

theorem clears_tuple (x : Option Ty) (h : ClearsAmong c p cs) : Clears c p (tuple cs x) :=
  (clears_inferEach _ h).bind_left fun _ => follows_pure _

theorem flow_inBranch (fs : List FlowFact) {y : Infer α} {s : BodyState}
    (h : Continues ((pushBranch fs).after c s) (y.after c ((pushBranch fs).after c s))) :
    ((inBranch fs y).after c s).flow = s.flow := by
  rw [(run_inBranch c fs y rfl h.below).1]

theorem follows_inBranch (fs : List FlowFact) {Q : α → Prop} {y : Infer α}
    (h : (BodyInvariant.tracking c p false).Keeps Restores Q y) : Follows c p (inBranch fs y) := by
  intro on s hs
  obtain ⟨-, hy, -⟩ := h ((pushBranch fs).after c s) nofun
  rw [(run_inBranch c fs y rfl hy.below).1]
  exact ⟨hs, ⟨hy.outer, rfl, hy.loopDepth, hy.errors, hy.aborted⟩, True.intro⟩

end Operands

end Infer

end TypeFlow
