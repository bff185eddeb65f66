import TypeFlow.Proofs.Infer.Invariant
import TypeFlow.Proofs.Infer.Rules.Nodes

namespace TypeFlow

namespace Expr

mutual

def tested : Expr → List Path
  | missing | int .. | float _ | bool .. | str .. | rune .. | noneLit _ | nilLit _ | ident ..
  | variant .. | breakLoop _ | continueLoop _ => []
  | field _ e _ | neg _ e | not _ e | ret _ e | mutArg _ e | borrow _ _ e => tested e
  | isTest _ e _ _ | noneCheck _ e _ => e.path?.toList ++ tested e
  | index _ a b | binary _ _ a b | loop _ a b => tested a ++ tested b
  | call _ _ gs as => testedGenerics gs ++ testedAll as
  | method _ e _ as => tested e ++ testedAll as
  | construct _ _ gs fs => testedGenerics gs ++ testedFields fs
  | array _ es | tuple _ es => testedAll es
  | mapLit _ es => testedEntries es
  | cond _ a b c => tested a ++ tested b ++ tested c
  | guardBind _ _ v a b => v.path?.toList ++ tested v ++ tested a ++ tested b
  | matchOn _ e as els => e.path?.toList ++ tested e ++ testedArms as ++ tested els
  | block _ ss e => testedStmts ss ++ tested e

def testedAll : List Expr → List Path
  | [] => []
  | e :: es => tested e ++ testedAll es

def testedGenerics : List GenericArg → List Path
  | [] => []
  | .type _ :: gs => testedGenerics gs
  | .value e :: gs => tested e ++ testedGenerics gs

def testedFields : List FieldInit → List Path
  | [] => []
  | .mk _ e _ :: fs => tested e ++ testedFields fs

def testedEntries : List MapEntry → List Path
  | [] => []
  | .mk k v _ :: es => tested k ++ tested v ++ testedEntries es

def testedArms : List Arm → List Path
  | [] => []
  | .onType _ b _ :: as => tested b ++ testedArms as
  | .onValue p b _ :: as => tested p ++ tested b ++ testedArms as

def testedStmts : List Stmt → List Path
  | [] => []
  | .bind _ _ _ _ e :: ss => tested e ++ testedStmts ss
  | .assign _ t e :: ss => tested t ++ tested e ++ testedStmts ss
  | .expr _ e :: ss => tested e ++ testedStmts ss

end

theorem testedAll_eq (es : List Expr) : testedAll es = es.flatMap tested := by
  induction es with
  | nil => rfl
  | cons e es ih => simp [testedAll, ih]

theorem testedGenerics_eq (gs : List GenericArg) :
    testedGenerics gs = (gs.flatMap (·.exprs)).flatMap tested := by
  induction gs with
  | nil => rfl
  | cons g gs ih => cases g <;> simp [testedGenerics, GenericArg.exprs, ih]

theorem testedFields_eq (fs : List FieldInit) : testedFields fs = (fs.map (·.value)).flatMap tested := by
  induction fs with
  | nil => rfl
  | cons f fs ih =>
    obtain ⟨x, e, s⟩ := f
    simp [testedFields, FieldInit.value, ih]

theorem testedEntries_eq (es : List MapEntry) :
    testedEntries es = (es.flatMap (·.exprs)).flatMap tested := by
  induction es with
  | nil => rfl
  | cons e es ih =>
    obtain ⟨k, v, s⟩ := e
    simp [testedEntries, MapEntry.exprs, ih]

theorem testedArms_eq (as : List Arm) : testedArms as = (as.flatMap (·.exprs)).flatMap tested := by
  induction as with
  | nil => rfl
  | cons a as ih => cases a <;> simp [testedArms, Arm.exprs, ih]

theorem testedStmts_eq (ss : List Stmt) : testedStmts ss = (ss.flatMap (·.exprs)).flatMap tested := by
  induction ss with
  | nil => rfl
  | cons s ss ih => cases s <;> simp [testedStmts, Stmt.exprs, ih]

theorem tested_eq (e : Expr) : e.tested = e.ownTests ++ e.parts.flatMap tested := by
  cases e <;> simp [tested, ownTests, parts, testedAll_eq, testedGenerics_eq, testedFields_eq,
    testedEntries_eq, testedArms_eq, testedStmts_eq]

def annotations (e : Expr) : List Written :=
  e.ownAnnotations ++ e.parts.attach.flatMap fun p => p.1.annotations
termination_by sizeOf e
decreasing_by exact sizeOf_lt_of_mem_parts p.2

theorem annotations_eq (e : Expr) : e.annotations = e.ownAnnotations ++ e.parts.flatMap annotations := by
  rw [annotations, List.flatMap_subtype fun _ _ => rfl, List.unattach_attach]

def sources (e : Expr) : List Expr :=
  e.ownSources ++ e.parts.attach.flatMap fun p => p.1.sources
termination_by sizeOf e
decreasing_by exact sizeOf_lt_of_mem_parts p.2

theorem sources_eq (e : Expr) : e.sources = e.ownSources ++ e.parts.flatMap sources := by
  rw [sources, List.flatMap_subtype fun _ _ => rfl, List.unattach_attach]

theorem sources_of_isUntypedLiteral {e : Expr} (h : e.isUntypedLiteral = true) : e.sources = [] := by
  have hnumber {p : Expr} (hp : p.isNumber = true) : p.sources = [] := by
    cases p
    case int | float => exact sources_eq _
    all_goals cases hp
  cases e
  case int | float | noneLit | nilLit => exact sources_eq _
  case neg s e =>
    have hparts : (neg s e).parts.flatMap sources = [] := by simpa [parts] using hnumber h
    exact (sources_eq _).trans hparts
  all_goals cases h

theorem annotations_numberGenerics (gs : List GenericArg) (n : Nat) :
    (GenericArg.numberAll gs n).1.flatMap (·.annotations) = gs.flatMap (·.annotations) := by
  induction gs generalizing n with
  | nil => rfl
  | cons g gs ih =>
    cases g with
    | type w => exact congrArg ([w] ++ ·) (ih n)
    | value e => exact ih _

theorem annotations_numberArms (as : List Arm) (n : Nat) :
    (Arm.numberAll as n).1.flatMap (·.annotations) = as.flatMap (·.annotations) := by
  induction as generalizing n with
  | nil => rfl
  | cons a as ih =>
    cases a with
    | onType w b s => exact congrArg ([w] ++ ·) (ih _)
    | onValue p b s => exact ih _

theorem annotations_numberStmts (ss : List Stmt) (n : Nat) :
    (Stmt.numberAll ss n).1.flatMap (·.annotations) = ss.flatMap (·.annotations) := by
  induction ss generalizing n with
  | nil => rfl
  | cons s ss ih =>
    cases s with
    | bind s x m w e => exact congrArg (w.toList ++ ·) (ih _)
    | assign | expr => exact ih _

theorem ownAnnotations_number (e : Expr) (n : Nat) : (e.number n).1.ownAnnotations = e.ownAnnotations := by
  cases e with
  | call _ _ gs _ | construct _ _ gs _ => exact annotations_numberGenerics gs n
  | matchOn _ _ as _ => exact annotations_numberArms as _
  | block _ ss _ => exact annotations_numberStmts ss n
  | _ => rfl

theorem mem_annotations_of_number {e : Expr} {n : Nat} {w : Written} (h : w ∈ (e.number n).1.annotations) :
    w ∈ e.annotations := by
  induction e using Expr.parts_induction generalizing n with
  | h e ih =>
    rw [annotations_eq, ownAnnotations_number] at h
    rw [annotations_eq]
    refine List.mem_append.mpr ((List.mem_append.mp h).imp_right fun h => ?_)
    obtain ⟨q, hq, hw⟩ := List.mem_flatMap.mp h
    obtain ⟨p, hp, k, rfl⟩ := renumbers_parts e n q hq
    exact List.mem_flatMap.mpr ⟨p, hp, ih p hp hw⟩

end Expr

namespace BodyInvariant

open BodyState (Restores)

variable {c : BodyContext} (V : BodyInvariant c)

def AboutAll (ps : List Path) : Prop := ∀ p ∈ ps, V.about p

variable {V}

theorem aboutAll_tested {e : Expr} (h : V.AboutAll e.tested) :
    V.AboutAll e.ownTests ∧ ∀ p ∈ e.parts, V.AboutAll p.tested := by
  rw [Expr.tested_eq] at h
  obtain ⟨hown, hparts⟩ := List.forall_mem_append.mp h
  exact ⟨hown, fun p hp q hq => hparts q (List.mem_flatMap.mpr ⟨p, hp, hq⟩)⟩

theorem keeps_visit (site : Site) {act : Infer Typed} {s : BodyState} (hs : V.holds s)
    (h : V.holds (act.after c s) ∧ s.Restores (act.after c s) ∧ V.GoodTyped (act.value c s)) :
    V.holds ((Infer.visit site act).after c s) ∧ s.Restores ((Infer.visit site act).after c s) ∧
      V.GoodTyped ((Infer.visit site act).value c s) := by
  cases ha : s.aborted with
  | true =>
    obtain ⟨hafter, hvalue⟩ := Infer.run_visit_of_aborted c site act ha
    rw [hafter, hvalue]
    exact ⟨hs, .refl s, V.good_error, V.goodFacts_empty⟩
  | false =>
    obtain ⟨hafter, hvalue⟩ := Infer.run_visit c site act ha rfl
    obtain ⟨hholds, hrestores, hgood⟩ := h
    rw [hafter, hvalue]
    split
    · exact ⟨hholds, hrestores, V.good_error, hgood.facts⟩
    · refine ⟨V.store site.id hholds hgood.ty, hrestores.trans ?_, hgood⟩
      exact ⟨⟨rfl, rfl, rfl, List.prefix_refl _, id⟩, rfl⟩

theorem checks (e : Expr) (h : V.AboutAll e.tested) (hw : ∀ w ∈ e.annotations, V.written w) :
    V.Checks e.asChild := by
  induction e using Expr.parts_induction with
  | h e ih =>
    intro x used hx s hs
    obtain ⟨hown, hparts⟩ := aboutAll_tested h
    rw [Expr.annotations_eq] at hw
    obtain ⟨hwown, hwparts⟩ := List.forall_mem_append.mp hw
    cases hsite : e.site? with
    | none =>
      cases e
      case missing => exact ⟨hs, .refl s, V.good_error, V.goodFacts_empty⟩
      all_goals cases hsite
    | some site =>
      have hruns (p : Expr) (hp : p ∈ e.required ∨ p ∈ e.parts ∧ p.isPresent = true) :
          V.theory.runs p.asChild := by
        have hmem : p ∈ e.parts := hp.elim Expr.mem_parts_of_mem_required And.left
        exact ih p hmem (hparts p hmem) fun w hwp => hwparts w (List.mem_flatMap.mpr ⟨p, hmem, hwp⟩)
      obtain ⟨act, hinfer, hplan⟩ := plan_node (A := True) (g := ⟨site.id, s.scope, none⟩) hsite rfl
        hruns hown hwown (fun _ _ => True.intro) (fun t ht => .inl (hx t ht)) used
      obtain ⟨k, -, hscope, hholds, hcontinues, hleaves⟩ := hplan.keeps True.intro hs rfl
      have hrun : e.asChild.run x used = Infer.visit site act := hinfer
      rw [hrun]
      refine keeps_visit site hs ⟨hholds, ⟨hcontinues, hscope.trans hleaves.scope⟩, ?_⟩
      exact ⟨V.laws.loose_iff.mp hleaves.result.ty, goodFacts_of_facts hleaves.result.facts⟩

end BodyInvariant

end TypeFlow
