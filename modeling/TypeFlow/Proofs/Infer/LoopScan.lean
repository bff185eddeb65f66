import TypeFlow.Proofs.Flow.Agreement
import TypeFlow.Proofs.Infer.Footprints.Runs

namespace TypeFlow

def Stmt.scanned : Stmt → List Path
  | .assign _ t _ => t.path?.toList
  | _ => []

def Stmt.unscanned : Stmt → List Path
  | .assign _ t _ => if t.path?.isSome then [] else t.assigned
  | _ => []

theorem Stmt.assigned_found {st : Stmt} {q : Path} (h : q ∈ st.assigned) : q ∈ st.scanned ∨ q ∈ st.unscanned := by
  cases st with
  | assign s t e => cases hpath : t.path? <;> simp_all [assigned, scanned, unscanned, Expr.assigned]
  | bind | expr => cases h

namespace Expr

variable {r : Registry} {e p : Expr}

def ownMissed (r : Registry) : Expr → List Path
  | block _ ss _ => ss.flatMap (·.unscanned)
  | construct _ _ gs _ => (gs.flatMap (·.exprs)).flatMap (writes r)
  | _ => []

def missed (r : Registry) : Expr → List Path := gather (ownMissed r)

def ownMissesBreak : Expr → Bool
  | loop _ test _ => test.mayBreak
  | construct _ _ gs _ => (gs.flatMap (·.exprs)).any mayBreak
  | _ => false

def missesBreak : Expr → Bool := anyInLoop ownMissesBreak

theorem writtenAll_eq (es : List Expr) : writtenAll r es = es.flatMap (written r) := by
  induction es with
  | nil => rfl
  | cons e es ih => simp [writtenAll, ih]

theorem writtenGenerics_eq (gs : List GenericArg) :
    writtenGenerics r gs = (gs.flatMap (·.exprs)).flatMap (written r) := by
  induction gs with
  | nil => rfl
  | cons g gs ih => cases g <;> simp [writtenGenerics, GenericArg.exprs, ih]

theorem writtenFields_eq (fs : List FieldInit) : writtenFields r fs = (fs.map (·.value)).flatMap (written r) := by
  induction fs with
  | nil => rfl
  | cons f fs ih =>
    obtain ⟨x, e, s⟩ := f
    simp [writtenFields, FieldInit.value, ih]

theorem writtenEntries_eq (es : List MapEntry) :
    writtenEntries r es = (es.flatMap (·.exprs)).flatMap (written r) := by
  induction es with
  | nil => rfl
  | cons e es ih =>
    obtain ⟨k, v, s⟩ := e
    simp [writtenEntries, MapEntry.exprs, ih]

theorem writtenArms_eq (as : List Arm) : writtenArms r as = (as.flatMap (·.exprs)).flatMap (written r) := by
  induction as with
  | nil => rfl
  | cons a as ih => cases a <;> simp [writtenArms, Arm.exprs, ih]

theorem mem_writtenStmts {ss : List Stmt} {q : Path} :
    q ∈ writtenStmts r ss ↔ q ∈ ss.flatMap (·.scanned) ∨ q ∈ (ss.flatMap (·.exprs)).flatMap (written r) := by
  induction ss with
  | nil => simp [writtenStmts]
  | cons st ss ih => cases st <;> grind [writtenStmts, Stmt.scanned, Stmt.exprs]

theorem breaksAll_eq (es : List Expr) : breaksAll es = es.any breaks := by
  induction es with
  | nil => rfl
  | cons e es ih => simp [breaksAll, ih]

theorem breaksGenerics_eq (gs : List GenericArg) : breaksGenerics gs = (gs.flatMap (·.exprs)).any breaks := by
  induction gs with
  | nil => rfl
  | cons g gs ih => cases g <;> simp [breaksGenerics, GenericArg.exprs, ih]

theorem breaksFields_eq (fs : List FieldInit) : breaksFields fs = (fs.map (·.value)).any breaks := by
  induction fs with
  | nil => rfl
  | cons f fs ih =>
    obtain ⟨x, e, s⟩ := f
    simp [breaksFields, FieldInit.value, ih]

theorem breaksEntries_eq (es : List MapEntry) : breaksEntries es = (es.flatMap (·.exprs)).any breaks := by
  induction es with
  | nil => rfl
  | cons e es ih =>
    obtain ⟨k, v, s⟩ := e
    simp [breaksEntries, MapEntry.exprs, ih, Bool.or_assoc]

theorem breaksArms_eq (as : List Arm) : breaksArms as = (as.flatMap (·.exprs)).any breaks := by
  induction as with
  | nil => rfl
  | cons a as ih => cases a <;> simp [breaksArms, Arm.exprs, ih, Bool.or_assoc]

theorem breaksStmts_eq (ss : List Stmt) : breaksStmts ss = (ss.flatMap (·.exprs)).any breaks := by
  induction ss with
  | nil => rfl
  | cons st ss ih => cases st <;> simp [breaksStmts, Stmt.exprs, ih, Bool.or_assoc]

theorem ownWrites_found {q : Path} (h : q ∈ e.ownWrites r) : q ∈ e.written r ∨ q ∈ e.ownMissed r := by
  cases e
  case block s ss e =>
    obtain ⟨st, hst, hq⟩ := List.mem_flatMap.mp h
    refine (Stmt.assigned_found hq).imp (fun hq => List.mem_append_left _ ?_) fun hq => ?_
    · exact mem_writtenStmts.mpr (.inl (List.mem_flatMap.mpr ⟨st, hst, hq⟩))
    · exact List.mem_flatMap.mpr ⟨st, hst, hq⟩
  case mutArg | borrow => exact .inl (List.mem_append_left _ h)
  case method => exact .inl (List.mem_append_left _ (List.mem_append_left _ h))
  case loop => exact .inl (List.mem_append_right _ h)
  all_goals cases h

theorem written_part (h : p ∈ e.parts) : p.written r ⊆ e.written r ∨ p.writes r ⊆ e.ownMissed r := by
  have hmem {ps : List Expr} (hp : p ∈ ps) : p.written r ⊆ ps.flatMap (written r) :=
    fun q hq => List.mem_flatMap.mpr ⟨p, hp, hq⟩
  cases e
  case missing | int | float | bool | str | rune | noneLit | nilLit | ident | variant | breakLoop | continueLoop =>
    cases h
  case construct s name gs fs =>
    rcases List.mem_append.mp h with hp | hp
    · exact .inr fun q hq => List.mem_flatMap.mpr ⟨p, hp, hq⟩
    · left
      rw [written, writtenFields_eq]
      exact hmem hp
  all_goals
    left
    intro q hq
    simp only [parts, List.mem_append, List.mem_cons, List.not_mem_nil, or_false] at h
    simp only [written, writtenAll_eq, writtenGenerics_eq, writtenEntries_eq, writtenArms_eq, mem_writtenStmts,
      List.mem_append]
    grind

theorem breaks_inner (h : p ∈ e.inner) :
    (p.breaks = true → e.breaks = true) ∨ (p.mayBreak = true → e.ownMissesBreak = true) := by
  have hany {ps : List Expr} (hp : p ∈ ps) (hb : p.breaks = true) : ps.any breaks = true :=
    List.any_eq_true.mpr ⟨p, hp, hb⟩
  cases e
  case missing | int | float | bool | str | rune | noneLit | nilLit | ident | variant | breakLoop | continueLoop =>
    cases h
  case construct s name gs fs =>
    rcases List.mem_append.mp h with hp | hp
    · exact .inr fun hb => List.any_eq_true.mpr ⟨p, hp, hb⟩
    · left
      rw [breaks, breaksFields_eq]
      exact hany hp
  case loop s test body =>
    obtain rfl := List.mem_singleton.mp h
    exact .inr id
  all_goals
    left
    intro hb
    simp only [inner, parts, List.mem_append, List.mem_cons, List.not_mem_nil, or_false] at h
    simp only [breaks, breaksAll_eq, breaksGenerics_eq, breaksEntries_eq, breaksArms_eq, breaksStmts_eq,
      Bool.or_eq_true]
    grind

theorem breaks_of_isBreak (h : e.isBreak = true) : e.breaks = true := by
  cases e
  case breakLoop => rfl
  all_goals cases h

-- By induction on the tree.
theorem writes_found (e : Expr) {q : Path} (h : q ∈ e.writes r) : q ∈ e.written r ∨ q ∈ e.missed r := by
  induction e using parts_induction with
  | h e ih =>
    have hown : e.ownMissed r ⊆ e.missed r := own_subset (ownMissed r) e
    rw [writes, gather_eq, List.mem_append, List.mem_flatMap] at h
    rcases h with h | ⟨p, hp, h⟩
    · exact (ownWrites_found h).imp_right fun hq => hown hq
    · rcases written_part (r := r) hp with hfound | hmissed
      · exact (ih p hp h).imp (fun hq => hfound hq) fun hq => gather_subset _ hp hq
      · exact .inr (hown (hmissed h))

theorem breaks_found (e : Expr) (h : e.mayBreak = true) : e.breaks = true ∨ e.missesBreak = true := by
  induction e using parts_induction with
  | h e ih =>
    rw [missesBreak, anyInLoop_eq, Bool.or_eq_true, List.any_eq_true]
    rw [mayBreak_eq, Bool.or_eq_true, List.any_eq_true] at h
    rcases h with h | ⟨p, hp, h⟩
    · exact .inl (breaks_of_isBreak h)
    · rcases breaks_inner hp with hfound | hmissed
      · exact (ih p (inner_subset e hp) h).imp hfound fun hm => .inr ⟨p, hp, hm⟩
      · exact .inr (.inl (hmissed h))

def scanned (r : Registry) (e : Expr) (layers : Layer → Prop) : Footprint where
  writes q := q ∈ e.written r ∨ q ∈ e.missed r
  tests q := q ∈ e.tested
  binds x := x ∈ e.binders
  leaves := e.breaks = true ∨ e.missesBreak = true
  layers := layers

theorem fitsIn_scanned (r : Registry) (e : Expr) (layers : Layer → Prop) : e.FitsIn r (e.scanned r layers) :=
  ⟨fun _ h => e.writes_found h, fun _ h => h, fun _ h => h, e.breaks_found⟩

end Expr

open Infer

theorem scan_covers (c : BodyContext) (body : Expr) (s : BodyState) :
    (∀ p, .write p ∈ body.asChild.discarded.steps c s →
      (∃ q ∈ body.written c.registry, p.startsWith q = true) ∨ p ∈ body.missed c.registry) ∧
    (.control .leave s.loopDepth ∈ body.asChild.discarded.steps c s →
      body.breaks = true ∨ body.missesBreak = true) := by
  have hwithin : Inside c (body.scanned c.registry fun _ => True) body.asChild.discarded :=
    treads_inferIn (body.treads c (body.fitsIn_scanned c.registry _)) none false
  obtain ⟨-, hcovers, -⟩ := hwithin.runs (.of_forall fun _ => True.intro) s True.intro
  constructor
  · intro p hp
    exact (hcovers.write p hp).imp_left fun hq => ⟨p, hq, p.startsWith_self⟩
  · intro hbreak
    obtain hlt | ⟨-, hleaves⟩ := hcovers.leave s.loopDepth hbreak
    · exact absurd hlt (Nat.lt_irrefl _)
    · exact hleaves

def elementWrite : Expr := .block {} [.assign {} (.index {} (.ident {} "x") (.int {} 0)) (.int {} 1)] .missing

def arrayState : BodyState where
  scope := ⟨[("x", ⟨.dynArray (.prim .i32), true⟩)], []⟩
  loopDepth := 1

theorem scan_covers_elementWrite :
    .write ⟨"x", []⟩ ∈ elementWrite.asChild.discarded.steps {} arrayState ∧
      elementWrite.written {} = [] ∧ ⟨"x", []⟩ ∈ elementWrite.missed {} := by
  have hwrite : .write ⟨"x", []⟩ ∈ elementWrite.asChild.discarded.steps {} arrayState := by decide +kernel
  have hwritten : elementWrite.written {} = [] := rfl
  refine ⟨hwrite, hwritten, ((scan_covers {} elementWrite arrayState).1 _ hwrite).resolve_left ?_⟩
  rw [hwritten]
  exact fun ⟨_, hq, _⟩ => List.not_mem_nil hq

end TypeFlow
