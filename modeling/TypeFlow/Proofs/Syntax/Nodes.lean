import TypeFlow.Syntax.Module

namespace TypeFlow

def GenericArg.exprs : GenericArg → List Expr
  | .type _ => []
  | .value e => [e]

def MapEntry.exprs : MapEntry → List Expr
  | .mk k v _ => [k, v]

def Arm.exprs : Arm → List Expr
  | .onType _ b _ => [b]
  | .onValue p b _ => [p, b]

def Stmt.exprs : Stmt → List Expr
  | .bind _ _ _ _ e | .expr _ e => [e]
  | .assign _ t e => [t, e]

def GenericArg.annotations : GenericArg → List Written
  | .type w => [w]
  | .value _ => []

def Arm.annotations : Arm → List Written
  | .onType w _ _ => [w]
  | .onValue .. => []

def Stmt.annotations : Stmt → List Written
  | .bind _ _ _ w _ => w.toList
  | .assign .. | .expr .. => []

theorem GenericArg.sizeOf_lt {a : GenericArg} {p : Expr} (h : p ∈ a.exprs) : sizeOf p < sizeOf a := by
  cases a with
  | type w => cases h
  | value e =>
    rw [List.mem_singleton.mp h]
    simp

theorem MapEntry.sizeOf_lt {a : MapEntry} {p : Expr} (h : p ∈ a.exprs) : sizeOf p < sizeOf a := by
  obtain ⟨k, v, s⟩ := a
  simp only [exprs, List.mem_cons, List.not_mem_nil, or_false] at h
  rcases h with rfl | rfl <;> simp +arith

theorem Arm.sizeOf_lt {a : Arm} {p : Expr} (h : p ∈ a.exprs) : sizeOf p < sizeOf a := by
  cases a <;> simp only [exprs, List.mem_cons, List.not_mem_nil, or_false] at h
  case onType => subst h; simp +arith
  case onValue => rcases h with rfl | rfl <;> simp +arith

theorem Stmt.sizeOf_lt {a : Stmt} {p : Expr} (h : p ∈ a.exprs) : sizeOf p < sizeOf a := by
  cases a <;> simp only [exprs, List.mem_cons, List.not_mem_nil, or_false] at h
  case assign => rcases h with rfl | rfl <;> simp +arith
  case bind | expr => subst h; simp +arith

theorem sizeOf_lt_of_mem_flatMap {α : Type} [SizeOf α] {f : α → List Expr} {as : List α} {p : Expr}
    (hf : ∀ {a}, p ∈ f a → sizeOf p < sizeOf a) (h : p ∈ as.flatMap f) : sizeOf p < sizeOf as := by
  obtain ⟨a, ha, hp⟩ := List.mem_flatMap.mp h
  exact Nat.lt_trans (hf hp) (List.sizeOf_lt_of_mem ha)

theorem FieldInit.sizeOf_lt {fs : List FieldInit} {p : Expr} (h : p ∈ fs.map (·.value)) :
    sizeOf p < sizeOf fs := by
  obtain ⟨⟨x, e, s⟩, hf, rfl⟩ := List.mem_map.mp h
  have hlt := List.sizeOf_lt_of_mem hf
  simp only [FieldInit.mk.sizeOf_spec, value] at hlt ⊢
  omega

namespace Expr

def parts : Expr → List Expr
  | missing | int .. | float _ | bool .. | str .. | rune .. | noneLit _ | nilLit _ | ident ..
  | variant .. | breakLoop _ | continueLoop _ => []
  | field _ e _ | neg _ e | not _ e | mutArg _ e | borrow _ _ e | isTest _ e _ _ | noneCheck _ e _
  | ret _ e => [e]
  | index _ a b | binary _ _ a b | loop _ a b => [a, b]
  | cond _ a b d | guardBind _ _ a b d => [a, b, d]
  | call _ _ gs as => gs.flatMap (·.exprs) ++ as
  | method _ e _ as => e :: as
  | construct _ _ gs fs => gs.flatMap (·.exprs) ++ fs.map (·.value)
  | array _ es | tuple _ es => es
  | mapLit _ es => es.flatMap (·.exprs)
  | matchOn _ e as d => e :: (as.flatMap (·.exprs) ++ [d])
  | block _ ss e => ss.flatMap (·.exprs) ++ [e]

theorem sizeOf_lt_of_mem_parts {e p : Expr} (h : p ∈ e.parts) : sizeOf p < sizeOf e := by
  have hgenerics {gs : List GenericArg} (h : p ∈ gs.flatMap (·.exprs)) : sizeOf p < sizeOf gs :=
    sizeOf_lt_of_mem_flatMap GenericArg.sizeOf_lt h
  cases e <;> simp only [parts, List.mem_cons, List.mem_append, List.not_mem_nil, or_false] at h
  case call s f gs as =>
    simp only [call.sizeOf_spec]
    rcases h with h | h
    · have := hgenerics h; omega
    · have := List.sizeOf_lt_of_mem h; omega
  case construct s x gs fs =>
    simp only [construct.sizeOf_spec]
    rcases h with h | h
    · have := hgenerics h; omega
    · have := FieldInit.sizeOf_lt h; omega
  case method =>
    simp only [method.sizeOf_spec]
    rcases h with rfl | h
    · omega
    · have := List.sizeOf_lt_of_mem h; omega
  case array | tuple => have := List.sizeOf_lt_of_mem h; simp; omega
  case mapLit => have := sizeOf_lt_of_mem_flatMap MapEntry.sizeOf_lt h; simp; omega
  case matchOn =>
    simp only [matchOn.sizeOf_spec]
    rcases h with rfl | h | rfl
    · omega
    · have := sizeOf_lt_of_mem_flatMap Arm.sizeOf_lt h; omega
    · omega
  case block =>
    simp only [block.sizeOf_spec]
    rcases h with h | rfl
    · have := sizeOf_lt_of_mem_flatMap Stmt.sizeOf_lt h; omega
    · omega
  case cond | guardBind => rcases h with rfl | rfl | rfl <;> simp +arith
  case index | binary | loop => rcases h with rfl | rfl <;> simp +arith
  all_goals subst h; simp +arith

theorem parts_induction {P : Expr → Prop} (h : ∀ e, (∀ p ∈ e.parts, P p) → P e) (e : Expr) : P e :=
  h e fun p _ => parts_induction h p
termination_by sizeOf e
decreasing_by exact sizeOf_lt_of_mem_parts ‹_›

mutual

def ids : Expr → List Nat
  | missing => []
  | int s _ | float s | bool s _ | str s _ | rune s _ | noneLit s | nilLit s | ident s _
  | variant s _ _ | breakLoop s | continueLoop s => [s.id]
  | field s e _ | neg s e | not s e | mutArg s e | borrow s _ e | isTest s e _ _ | noneCheck s e _
  | ret s e => ids e ++ [s.id]
  | index s a b | binary s _ a b | loop s a b => ids a ++ ids b ++ [s.id]
  | cond s a b d | guardBind s _ a b d => ids a ++ ids b ++ ids d ++ [s.id]
  | call s _ gs as => idsGenerics gs ++ idsAll as ++ [s.id]
  | method s e _ as => ids e ++ idsAll as ++ [s.id]
  | construct s _ gs fs => idsGenerics gs ++ idsFields fs ++ [s.id]
  | array s es | tuple s es => idsAll es ++ [s.id]
  | mapLit s es => idsEntries es ++ [s.id]
  | matchOn s e as d => ids e ++ idsArms as ++ ids d ++ [s.id]
  | block s ss e => idsStmts ss ++ ids e ++ [s.id]

def idsAll : List Expr → List Nat
  | [] => []
  | e :: es => ids e ++ idsAll es

def idsGenerics : List GenericArg → List Nat
  | [] => []
  | .type _ :: gs => idsGenerics gs
  | .value e :: gs => ids e ++ idsGenerics gs

def idsFields : List FieldInit → List Nat
  | [] => []
  | .mk _ e _ :: fs => ids e ++ idsFields fs

def idsEntries : List MapEntry → List Nat
  | [] => []
  | .mk k v _ :: es => ids k ++ ids v ++ idsEntries es

def idsArms : List Arm → List Nat
  | [] => []
  | .onType _ b _ :: as => ids b ++ idsArms as
  | .onValue p b _ :: as => ids p ++ ids b ++ idsArms as

def idsStmts : List Stmt → List Nat
  | [] => []
  | .bind _ _ _ _ e :: ss | .expr _ e :: ss => ids e ++ idsStmts ss
  | .assign _ t e :: ss => ids t ++ ids e ++ idsStmts ss

end

theorem idsAll_eq (es : List Expr) : idsAll es = es.flatMap ids := by
  induction es with
  | nil => rfl
  | cons e es ih => simp [idsAll, ih]

theorem idsGenerics_eq (gs : List GenericArg) :
    idsGenerics gs = (gs.flatMap (·.exprs)).flatMap ids := by
  induction gs with
  | nil => rfl
  | cons g gs ih => cases g <;> simp [idsGenerics, GenericArg.exprs, ih]

theorem idsFields_eq (fs : List FieldInit) : idsFields fs = (fs.map (·.value)).flatMap ids := by
  induction fs with
  | nil => rfl
  | cons f fs ih => cases f; simp [idsFields, FieldInit.value, ih]

theorem idsEntries_eq (es : List MapEntry) : idsEntries es = (es.flatMap (·.exprs)).flatMap ids := by
  induction es with
  | nil => rfl
  | cons e es ih => cases e; simp [idsEntries, MapEntry.exprs, ih]

theorem idsArms_eq (as : List Arm) : idsArms as = (as.flatMap (·.exprs)).flatMap ids := by
  induction as with
  | nil => rfl
  | cons a as ih => cases a <;> simp [idsArms, Arm.exprs, ih]

theorem idsStmts_eq (ss : List Stmt) : idsStmts ss = (ss.flatMap (·.exprs)).flatMap ids := by
  induction ss with
  | nil => rfl
  | cons s ss ih => cases s <;> simp [idsStmts, Stmt.exprs, ih]

theorem ids_eq (e : Expr) : e.ids = e.parts.flatMap ids ++ e.site?.toList.map (·.id) := by
  cases e <;>
    simp [ids, parts, site?, idsAll_eq, idsGenerics_eq, idsFields_eq, idsEntries_eq, idsArms_eq,
      idsStmts_eq]

def Apart (e f : Expr) : Prop := ∀ i ∈ e.ids, i ∉ f.ids

theorem Apart.symm {e f : Expr} (h : e.Apart f) : f.Apart e := fun i hf he => h i he hf

end Expr

structure Counts (n : Nat) (is : List Nat) (m : Nat) : Prop where
  le : n ≤ m
  eq : is = List.range' n (m - n)

namespace Counts

theorem nil (n : Nat) : Counts n [] n := ⟨Nat.le_refl n, by simp⟩

theorem one (n : Nat) : Counts n [n] (n + 1) := ⟨by omega, by simp⟩

theorem append {n m k : Nat} {is js : List Nat} (h : Counts n is m) (h' : Counts m js k) :
    Counts n (is ++ js) k := by
  refine ⟨Nat.le_trans h.le h'.le, ?_⟩
  have h₁ := h.le
  have h₂ := h'.le
  rw [h.eq, h'.eq]
  have hm : m = n + (m - n) := by omega
  have hk : k - n = (m - n) + (k - m) := by omega
  rw [hk, ← List.range'_append_1, ← hm]

theorem nodup {n m : Nat} {is : List Nat} (h : Counts n is m) : is.Nodup := by
  rw [h.eq]
  exact List.nodup_range'

theorem mem {n m i : Nat} {is : List Nat} (h : Counts n is m) (hi : i ∈ is) : n ≤ i ∧ i < m := by
  rw [h.eq, List.mem_range'_1] at hi
  have := h.le
  omega

end Counts

mutual

theorem Expr.counts_number : (e : Expr) → (n : Nat) → Counts n (e.number n).1.ids (e.number n).2
  | .missing, n => .nil n
  | .int .., n | .float _, n | .bool .., n | .str .., n | .rune .., n | .noneLit _, n | .nilLit _, n
  | .ident .., n | .variant .., n | .breakLoop _, n | .continueLoop _, n => .one n
  | .field _ e _, n | .neg _ e, n | .not _ e, n | .mutArg _ e, n | .borrow _ _ e, n
  | .isTest _ e _ _, n | .noneCheck _ e _, n | .ret _ e, n => (counts_number e n).append (.one _)
  | .index _ a b, n | .binary _ _ a b, n | .loop _ a b, n =>
    ((counts_number a n).append (counts_number b _)).append (.one _)
  | .cond _ a b d, n | .guardBind _ _ a b d, n =>
    (((counts_number a n).append (counts_number b _)).append (counts_number d _)).append (.one _)
  | .call _ _ gs as, n => ((countsGenerics_number gs n).append (countsAll_number as _)).append (.one _)
  | .method _ e _ as, n => ((counts_number e n).append (countsAll_number as _)).append (.one _)
  | .construct _ _ gs fs, n =>
    ((countsGenerics_number gs n).append (countsFields_number fs _)).append (.one _)
  | .array _ es, n | .tuple _ es, n => (countsAll_number es n).append (.one _)
  | .mapLit _ es, n => (countsEntries_number es n).append (.one _)
  | .matchOn _ e as d, n =>
    (((counts_number e n).append (countsArms_number as _)).append (counts_number d _)).append (.one _)
  | .block _ ss e, n => ((countsStmts_number ss n).append (counts_number e _)).append (.one _)

theorem Expr.countsAll_number : (es : List Expr) → (n : Nat) →
    Counts n (Expr.idsAll (Expr.numberAll es n).1) (Expr.numberAll es n).2
  | [], n => .nil n
  | e :: es, n => (counts_number e n).append (countsAll_number es _)

theorem Expr.countsGenerics_number : (gs : List GenericArg) → (n : Nat) →
    Counts n (Expr.idsGenerics (GenericArg.numberAll gs n).1) (GenericArg.numberAll gs n).2
  | [], n => .nil n
  | .type _ :: gs, n => countsGenerics_number gs n
  | .value e :: gs, n => (counts_number e n).append (countsGenerics_number gs _)

theorem Expr.countsFields_number : (fs : List FieldInit) → (n : Nat) →
    Counts n (Expr.idsFields (FieldInit.numberAll fs n).1) (FieldInit.numberAll fs n).2
  | [], n => .nil n
  | .mk _ e _ :: fs, n => (counts_number e n).append (countsFields_number fs _)

theorem Expr.countsEntries_number : (es : List MapEntry) → (n : Nat) →
    Counts n (Expr.idsEntries (MapEntry.numberAll es n).1) (MapEntry.numberAll es n).2
  | [], n => .nil n
  | .mk k v _ :: es, n =>
    ((counts_number k n).append (counts_number v _)).append (countsEntries_number es _)

theorem Expr.countsArms_number : (as : List Arm) → (n : Nat) →
    Counts n (Expr.idsArms (Arm.numberAll as n).1) (Arm.numberAll as n).2
  | [], n => .nil n
  | .onType _ b _ :: as, n => (counts_number b n).append (countsArms_number as _)
  | .onValue p b _ :: as, n =>
    ((counts_number p n).append (counts_number b _)).append (countsArms_number as _)

theorem Expr.countsStmts_number : (ss : List Stmt) → (n : Nat) →
    Counts n (Expr.idsStmts (Stmt.numberAll ss n).1) (Stmt.numberAll ss n).2
  | [], n => .nil n
  | .bind _ _ _ _ e :: ss, n | .expr _ e :: ss, n => (counts_number e n).append (countsStmts_number ss _)
  | .assign _ t e :: ss, n =>
    ((counts_number t n).append (counts_number e _)).append (countsStmts_number ss _)

end

end TypeFlow
