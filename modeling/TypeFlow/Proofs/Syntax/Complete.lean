import TypeFlow.Proofs.Syntax.Nodes

namespace TypeFlow

namespace Expr

def required : Expr → List Expr
  | cond _ a b _ | guardBind _ _ a b _ => [a, b]
  | matchOn _ e as _ => e :: as.flatMap (·.exprs)
  | block _ ss _ => ss.flatMap (·.exprs)
  | ret .. => []
  | loop _ _ b => [b]
  | e => e.parts

theorem mem_parts_of_mem_required {e p : Expr} (h : p ∈ e.required) : p ∈ e.parts := by
  cases e <;> simp_all [required, parts]
  all_goals grind

inductive Complete : Expr → Prop
  | node {e : Expr} (required : ∀ p ∈ e.required, p.isPresent = true)
    (parts : ∀ p ∈ e.parts, p.Complete) : e.Complete

theorem Complete.runs {e p : Expr} (h : e.Complete) (hp : p ∈ e.required ∨ p ∈ e.parts ∧ p.isPresent = true) :
    p.Complete ∧ p.isPresent = true := by
  obtain ⟨hrequired, hparts⟩ := h
  rcases hp with hp | ⟨hp, hpresent⟩
  · exact ⟨hparts p (mem_parts_of_mem_required hp), hrequired p hp⟩
  · exact ⟨hparts p hp, hpresent⟩

theorem isPresent_number (e : Expr) (n : Nat) : (e.number n).1.isPresent = e.isPresent := by
  cases e <;> rfl

def Renumbers (es fs : List Expr) : Prop := ∀ q ∈ fs, ∃ p ∈ es, ∃ n, q = (p.number n).1

theorem renumbers_nil (es : List Expr) : Renumbers es [] := nofun

theorem Renumbers.cons {es fs : List Expr} (e : Expr) (n : Nat) (h : Renumbers es fs) :
    Renumbers (e :: es) ((e.number n).1 :: fs) := by
  refine List.forall_mem_cons.mpr ⟨⟨e, List.mem_cons_self, n, rfl⟩, fun q hq => ?_⟩
  obtain ⟨p, hp, hn⟩ := h q hq
  exact ⟨p, List.mem_cons_of_mem _ hp, hn⟩

theorem Renumbers.append {es es' fs fs' : List Expr} (h : Renumbers es fs) (k : Renumbers es' fs') :
    Renumbers (es ++ es') (fs ++ fs') := by
  refine List.forall_mem_append.mpr ⟨fun q hq => ?_, fun q hq => ?_⟩
  · obtain ⟨p, hp, hn⟩ := h q hq
    exact ⟨p, List.mem_append_left _ hp, hn⟩
  · obtain ⟨p, hp, hn⟩ := k q hq
    exact ⟨p, List.mem_append_right _ hp, hn⟩

theorem renumbers_one (e : Expr) (n : Nat) : Renumbers [e] [(e.number n).1] := .cons e n (renumbers_nil _)

theorem renumbers_all (es : List Expr) (n : Nat) : Renumbers es (numberAll es n).1 := by
  induction es generalizing n with
  | nil => exact renumbers_nil _
  | cons e es ih => exact .cons e n (ih _)

theorem renumbers_generics (gs : List GenericArg) (n : Nat) :
    Renumbers (gs.flatMap (·.exprs)) ((GenericArg.numberAll gs n).1.flatMap (·.exprs)) := by
  induction gs generalizing n with
  | nil => exact renumbers_nil _
  | cons g gs ih =>
    cases g with
    | type w => exact ih n
    | value e => exact .cons e n (ih _)

theorem renumbers_fields (fs : List FieldInit) (n : Nat) :
    Renumbers (fs.map (·.value)) ((FieldInit.numberAll fs n).1.map (·.value)) := by
  induction fs generalizing n with
  | nil => exact renumbers_nil _
  | cons f fs ih =>
    obtain ⟨x, e, s⟩ := f
    exact .cons e n (ih _)

theorem renumbers_entries (es : List MapEntry) (n : Nat) :
    Renumbers (es.flatMap (·.exprs)) ((MapEntry.numberAll es n).1.flatMap (·.exprs)) := by
  induction es generalizing n with
  | nil => exact renumbers_nil _
  | cons e es ih =>
    obtain ⟨k, v, s⟩ := e
    exact .cons k n (.cons v _ (ih _))

theorem renumbers_arms (as : List Arm) (n : Nat) :
    Renumbers (as.flatMap (·.exprs)) ((Arm.numberAll as n).1.flatMap (·.exprs)) := by
  induction as generalizing n with
  | nil => exact renumbers_nil _
  | cons a as ih =>
    cases a with
    | onType t b s => exact .cons b n (ih _)
    | onValue p b s => exact .cons p n (.cons b _ (ih _))

theorem renumbers_stmts (ss : List Stmt) (n : Nat) :
    Renumbers (ss.flatMap (·.exprs)) ((Stmt.numberAll ss n).1.flatMap (·.exprs)) := by
  induction ss generalizing n with
  | nil => exact renumbers_nil _
  | cons s ss ih =>
    cases s with
    | bind s x m t e => exact .cons e n (ih _)
    | assign s t e => exact .cons t n (.cons e _ (ih _))
    | expr s e => exact .cons e n (ih _)

theorem renumbers_parts (e : Expr) (n : Nat) : Renumbers e.parts (e.number n).1.parts := by
  cases e with
  | missing | int | float | bool | str | rune | noneLit | nilLit | ident | variant | breakLoop
  | continueLoop => exact renumbers_nil _
  | field _ e | neg _ e | not _ e | mutArg _ e | borrow _ _ e | isTest _ e | noneCheck _ e | ret _ e =>
    exact renumbers_one e n
  | index _ a b | binary _ _ a b | loop _ a b => exact .cons a n (renumbers_one b _)
  | cond _ a b d | guardBind _ _ a b d => exact .cons a n (.cons b _ (renumbers_one d _))
  | call _ _ gs as => exact (renumbers_generics gs n).append (renumbers_all as _)
  | method _ e _ as => exact .cons e n (renumbers_all as _)
  | construct _ _ gs fs => exact (renumbers_generics gs n).append (renumbers_fields fs _)
  | array _ es | tuple _ es => exact renumbers_all es n
  | mapLit _ es => exact renumbers_entries es n
  | matchOn _ e as d => exact .cons e n ((renumbers_arms as _).append (renumbers_one d _))
  | block _ ss e => exact (renumbers_stmts ss n).append (renumbers_one e _)

theorem renumbers_required (e : Expr) (n : Nat) : Renumbers e.required (e.number n).1.required := by
  have hparts := renumbers_parts e n
  cases e
  case cond s a b d => exact .cons a n (renumbers_one b _)
  case guardBind s x a b d => exact .cons a n (renumbers_one b _)
  case matchOn s e as d => exact .cons e n (renumbers_arms as _)
  case block s ss e => exact renumbers_stmts ss n
  case ret s e => exact renumbers_nil _
  case loop s a b => exact renumbers_one b _
  all_goals exact hparts

theorem Complete.number {e : Expr} (h : e.Complete) (n : Nat) : (e.number n).1.Complete := by
  induction h generalizing n with
  | @node e hrequired _ ih =>
    refine ⟨fun q hq => ?_, fun q hq => ?_⟩
    · obtain ⟨p, hp, k, rfl⟩ := renumbers_required e n q hq
      rw [isPresent_number]
      exact hrequired p hp
    · obtain ⟨p, hp, k, rfl⟩ := renumbers_parts e n q hq
      exact ih p hp k

end Expr

namespace Module

structure Complete (m : Module) : Prop where
  const : ∀ c ∈ m.consts, c.value.Complete ∧ c.value.isPresent = true
  function : ∀ f ∈ m.functions, f.body.Complete
  method : ∀ f ∈ m.methods, f.body.Complete

def ids (m : Module) : List Nat :=
  m.consts.flatMap (·.value.ids) ++ m.functions.flatMap (·.body.ids) ++ m.methods.flatMap (·.body.ids)

theorem counts_numberConsts (cs : List ConstItem) (n : Nat) :
    Counts n ((numberConsts cs n).1.flatMap (·.value.ids)) (numberConsts cs n).2 := by
  induction cs generalizing n with
  | nil => exact .nil n
  | cons c cs ih => exact (c.value.counts_number n).append (ih _)

theorem counts_numberFunctions (fs : List FunctionItem) (n : Nat) :
    Counts n ((numberFunctions fs n).1.flatMap (·.body.ids)) (numberFunctions fs n).2 := by
  induction fs generalizing n with
  | nil => exact .nil n
  | cons f fs ih => exact (f.body.counts_number n).append (ih _)

theorem counts_numberMethods (ms : List MethodItem) (n : Nat) :
    Counts n ((numberMethods ms n).1.flatMap (·.body.ids)) (numberMethods ms n).2 := by
  induction ms generalizing n with
  | nil => exact .nil n
  | cons m ms ih => exact (m.body.counts_number n).append (ih _)

theorem counts_number (m : Module) : Counts 0 m.number.1.ids m.number.2 :=
  ((counts_numberConsts m.consts 0).append (counts_numberFunctions m.functions _)).append
    (counts_numberMethods m.methods _)

theorem mem_numberConsts {cs : List ConstItem} {n : Nat} {c : ConstItem} (h : c ∈ (numberConsts cs n).1) :
    ∃ d ∈ cs, ∃ k, c = { d with value := (d.value.number k).1 } := by
  induction cs generalizing n with
  | nil => cases h
  | cons d cs ih =>
    rcases List.mem_cons.mp h with rfl | h
    · exact ⟨d, List.mem_cons_self, n, rfl⟩
    · obtain ⟨d', hd, hk⟩ := ih h
      exact ⟨d', List.mem_cons_of_mem _ hd, hk⟩

theorem mem_numberFunctions {fs : List FunctionItem} {n : Nat} {f : FunctionItem}
    (h : f ∈ (numberFunctions fs n).1) : ∃ g ∈ fs, ∃ k, f = { g with body := (g.body.number k).1 } := by
  induction fs generalizing n with
  | nil => cases h
  | cons g fs ih =>
    rcases List.mem_cons.mp h with rfl | h
    · exact ⟨g, List.mem_cons_self, n, rfl⟩
    · obtain ⟨g', hg, hk⟩ := ih h
      exact ⟨g', List.mem_cons_of_mem _ hg, hk⟩

theorem mem_numberMethods {ms : List MethodItem} {n : Nat} {f : MethodItem}
    (h : f ∈ (numberMethods ms n).1) : ∃ g ∈ ms, ∃ k, f = { g with body := (g.body.number k).1 } := by
  induction ms generalizing n with
  | nil => cases h
  | cons g ms ih =>
    rcases List.mem_cons.mp h with rfl | h
    · exact ⟨g, List.mem_cons_self, n, rfl⟩
    · obtain ⟨g', hg, hk⟩ := ih h
      exact ⟨g', List.mem_cons_of_mem _ hg, hk⟩

theorem Complete.number {m : Module} (h : m.Complete) : m.number.1.Complete where
  const c hc := by
    obtain ⟨d, hd, k, rfl⟩ := mem_numberConsts hc
    exact ⟨(h.const d hd).1.number k, (Expr.isPresent_number _ _).trans (h.const d hd).2⟩
  function f hf := by
    obtain ⟨g, hg, k, rfl⟩ := mem_numberFunctions hf
    exact (h.function g hg).number k
  method f hf := by
    obtain ⟨g, hg, k, rfl⟩ := mem_numberMethods hf
    exact (h.method g hg).number k

end Module

end TypeFlow
