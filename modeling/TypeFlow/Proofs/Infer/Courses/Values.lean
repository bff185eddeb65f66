import TypeFlow.Proofs.Infer.Courses.Basic
import TypeFlow.Proofs.Ty.Closed

namespace TypeFlow

def EntryChild.exprs (e : EntryChild) : List Expr := [e.key.expr, e.value.expr]

namespace Infer

variable {c : BodyContext} {I : List Span → Prop} {A : Prop} {ch l r : Child} {cs : List Child}
  {es : List EntryChild}

theorem course_error (span : Span) (cause : Cause) :
    Course c I False [] [] (report span cause) fun _ => True :=
  (course_report span cause False.elim).trivial

theorem course_ident (span : Span) (name : String) :
    Course c I False [] [] (ident span name) fun _ => True := by
  refine .after (quiet_lookupLocal name) fun o => ?_
  cases o with
  | some l => exact .quiet (quiet_readLocal name l)
  | none =>
    refine .after quiet_registry fun r => ?_
    split
    · exact .done _
    · split
      · split
        · exact .done _
        · exact course_error _ _
      · exact course_error _ _

theorem course_enumVariant (span : Span) (enum name : String) :
    Course c I False [] [] (enumVariant span enum name) fun _ => True := by
  refine .after quiet_registry fun r => ?_
  split
  · exact course_error _ _
  · split
    · exact .ite (fun _ => .done _) fun _ => course_error _ _
    · exact course_error _ _

theorem isError_of_ne {t : Ty} (h : t ≠ .error) : ¬ t.isError = true :=
  fun k => h (Ty.eq_error_of_isError k)

theorem course_operand {α : Type} {L : List Span} {E : List Expr} {f : Ty → Infer α} {Q : α → Prop}
    (h : ch.Runs c I) (x : Option Ty) (he : Course c I True L E (f .error) Q)
    (hf : ∀ t, t ≠ .error → Course c I False L E (f t) Q) :
    Course c I A L (ch.expr :: E) (ch.infer x >>= f) Q := by
  refine (course_infer h x).bind fun t => ?_
  by_cases ht : t = .error
  · rw [ht]
    exact he.assuming fun _ => True.intro
  · exact (hf t ht).assuming ht

theorem course_field (span : Span) (name : String) (h : ch.Runs c I) :
    Course c I False [] [ch.expr] (field span ch name) fun _ => True := by
  refine course_operand h none (.done _) fun t ht => ?_
  rw [if_neg (isError_of_ne ht)]
  refine .after (quiet_knownPath _) fun o => ?_
  cases o with
  | some n => exact .done _
  | none =>
    refine .after quiet_registry fun r => ?_
    split
    · exact .done _
    · exact course_error _ _

theorem course_integerIndex (h : ch.Runs c I) :
    Course c I A [] [ch.expr] (integerIndex ch) fun _ => True := by
  refine course_operand h _ (.done _) fun t _ => ?_
  exact .ite (fun _ => .done _) fun _ => course_fault _ _ False.elim

theorem course_indexed (span : Span) (h : l.Runs c I) (h' : r.Runs c I) :
    Course c I False [span] [l.expr, r.expr] (indexed span l r) fun _ => True := by
  have hindex {B : Prop} {x : Infer Unit} (hx : Course c I B [] [r.expr] x fun _ => True) (t : Ty) :
      Course c I B [span] [r.expr] (x >>= fun _ => pure t) fun _ => True :=
    (hx.returns _).within (List.nil_sublist _) (List.Subset.refl _)
  refine course_operand h none (hindex (course_ignored h' none) _) fun t ht => ?_
  rw [if_neg (isError_of_ne ht)]
  split
  · exact hindex (course_integerIndex h') _
  · exact hindex (course_integerIndex h') _
  · exact hindex (course_integerIndex h') _
  · exact hindex (course_check h' _).discard _
  · exact (course_ignored h' none).bind fun _ => (course_report span _ fun _ => .refl _).trivial

theorem course_negated (h : ch.Runs c I) (x : Option Ty) :
    Course c I False [] [ch.expr] (negated ch x) fun _ => True := by
  refine course_operand h x (.done _) fun t ht => ?_
  rw [if_neg (isError_of_ne ht)]
  split
  · exact .done _
  · exact .done _
  · exact course_error _ _

theorem course_negatedInt (site : Site) (n : Int64) (x : Option Ty) :
    Course c I False [] [.int site n] (negatedInt site n x) fun _ => True where
  late := False.elim
  live s hs := by
    have hafter : (negatedInt site n x).after c s =
        { s with types := (site.id, Ty.ofInt (-n.toInt) x) :: s.types } := rfl
    rw [hafter]
    refine .inl ⟨hs, fun _ => rfl, List.suffix_cons _ _, ?_⟩
    refine List.forall_mem_singleton.mpr fun m place hm hplace => ?_
    cases hm with
    | here =>
      cases hplace
      simp [BodyState.typeOf]
    | inside hp => cases hp

theorem course_operandTypes (h : l.Runs c I) (h' : r.Runs c I) (x : Option Ty) :
    Course c I A [] [l.expr, r.expr] (operandTypes l r x) fun ts => ts.1 = .error ∨ ts.2 = .error := by
  refine .ite (fun _ => ?_) fun _ => ?_
  · have hright : Course c I A [] [r.expr, l.expr] (do
        let t ← r.infer x
        let u ← l.infer (some t)
        return (u, t)) fun ts => ts.1 = .error ∨ ts.2 = .error :=
      (course_infer h' x).bind fun t => (course_infer h (some t)).map fun _ => .inl
    exact hright.within .slnil (by simp)
  · exact (course_infer h x).bind fun t => (course_infer h' (some t)).map fun _ => .inr

theorem course_binary (span : Span) (op : BinaryOp) (h : l.Runs c I) (h' : r.Runs c I) (x : Option Ty) :
    Course c I False [] [l.expr, r.expr] (binary span op l r x) fun _ => True := by
  have hbool (ok : Bool) (cause : Cause) : Course c I False [] [] (do
      unless ok do discard <| report span cause
      return Ty.prim .bool) fun _ => True :=
    .ite (fun _ => .done _) fun _ => (course_fault span cause False.elim).returns _
  refine (course_operandTypes h h' _).andThen fun ts => ?_
  obtain ⟨t, u⟩ := ts
  dsimp only
  refine .ite (fun _ => .done _) fun hne => ?_
  have hstopped : ¬ (t = .error ∨ u = .error) := by
    rintro (rfl | rfl)
    · exact hne rfl
    · exact hne (Bool.or_true _)
  refine Course.assuming (A := False) ?_ hstopped
  split
  case h_1 | h_2 => exact .after (quiet_assignable _ _) fun _ => .after (quiet_assignable _ _) fun _ => hbool _ _
  case h_3 | h_4 | h_5 | h_6 => exact hbool _ _
  case h_7 => exact .ite (fun _ => .done _) fun _ => .ite (fun _ => .done _) fun _ => course_error _ _
  case h_12 | h_13 => exact .done _
  all_goals exact .ite (fun _ => .done _) fun _ => course_error _ _

theorem course_checkAll (h : ∀ ch ∈ cs, ch.Runs c I) (t : Ty) :
    Course c I A [] (cs.map (·.expr)) (checkAll t cs) fun _ => True := by
  induction cs generalizing A with
  | nil => exact .done _
  | cons ch cs ih =>
    obtain ⟨hch, hcs⟩ := List.forall_mem_cons.mp h
    exact (course_check hch t).discard.bind fun _ => ih hcs

theorem course_array (span : Span) (h : ∀ ch ∈ cs, ch.Runs c I) (x : Option Ty) :
    Course c I False [] (cs.map (·.expr)) (array span cs x) fun _ => True := by
  unfold array
  split
  · exact (course_checkAll h _).returns _
  · exact (course_checkAll h _).returns _
  · cases cs with
    | nil => exact course_error _ _
    | cons ch cs =>
      obtain ⟨hch, hcs⟩ := List.forall_mem_cons.mp h
      exact (course_infer hch none).bind fun t => (course_checkAll hcs t).returns _

theorem course_checkEntries (h : ∀ e ∈ es, e.key.Runs c I ∧ e.value.Runs c I) (t u : Ty) :
    Course c I A [] (es.flatMap (·.exprs)) (checkEntries t u es) fun _ => True := by
  induction es generalizing A with
  | nil => exact .done _
  | cons e es ih =>
    obtain ⟨he, hes⟩ := List.forall_mem_cons.mp h
    refine (course_check he.1 t).discard.bind fun _ => ?_
    exact (course_check he.2 u).discard.bind fun _ => ih hes

theorem course_mapLit (span : Span) (h : ∀ e ∈ es, e.key.Runs c I ∧ e.value.Runs c I) (x : Option Ty) :
    Course c I False [] (es.flatMap (·.exprs)) (mapLit span es x) fun _ => True := by
  unfold mapLit
  split
  · exact (course_checkEntries h _ _).returns _
  · cases es with
    | nil => exact course_error _ _
    | cons e es =>
      obtain ⟨he, hes⟩ := List.forall_mem_cons.mp h
      refine (course_infer he.1 none).bind fun t => (course_infer he.2 none).bind fun u => ?_
      exact (course_checkEntries hes t u).returns _

theorem course_inferEach (h : ∀ ch ∈ cs, ch.Runs c I) (hints : List (Option Ty)) :
    Course c I A [] (cs.map (·.expr)) (inferEach cs hints) fun _ => True := by
  induction cs generalizing A hints with
  | nil => exact .done _
  | cons ch cs ih =>
    obtain ⟨hch, hcs⟩ := List.forall_mem_cons.mp h
    exact (course_infer hch _).bind fun t => (ih hcs hints.tail).returns _

theorem course_tuple (h : ∀ ch ∈ cs, ch.Runs c I) (x : Option Ty) :
    Course c I False [] (cs.map (·.expr)) (tuple cs x) fun _ => True :=
  (course_inferEach h _).returns _

theorem course_typeTest {L : List Span} {t u : Ty} {span : Span} (path : Option (Path × Ty))
    (h : A → (t = .error ∨ u = .error) ∨ [span].Sublist L) :
    Course c I A L [] (typeTest t path u span) fun _ => True := by
  have hquiet (b : Bool) : Course c I A L [] (pure b : Infer Bool) fun _ => True :=
    (Course.done b).within (List.nil_sublist L) (List.Subset.refl _)
  refine .ite (fun _ => hquiet false) fun hne => ?_
  have hfault (cause : Cause) : Course c I A L [] (do
      discard <| report span cause
      return false) fun _ => True := by
    refine (course_fault span cause fun hA => (h hA).resolve_left ?_).returns _
    rintro (rfl | rfl)
    · exact hne rfl
    · exact hne (Bool.or_true _)
  refine .after (quiet_narrowingOf path) fun o => ?_
  split
  · exact hfault _
  · exact .after quiet_registry fun r => .ite (fun _ => hquiet true) fun _ => hfault _

theorem course_isTest (span : Span) (w : Written) (h : ch.Runs c I) :
    Course c I False [span] [ch.expr] (isTest span ch w) fun _ => True := by
  have htest {B : Prop} {L : List Span} {t u : Ty} (hB : B → (t = .error ∨ u = .error) ∨ [span].Sublist L) :
      Course c I B L [] (do
        let path ← narrowableChild ch
        if ← typeTest t path u span then return factsOf path (.is u) (.isNot u)
        return {}) fun _ => True :=
    .after (quiet_narrowable _) fun path => (course_typeTest path hB).andThen fun b =>
      .ite (fun _ => .done _) fun _ => .done _
  have hreport {B : Prop} (t : Ty) (cause : Cause) : Course c I B [span] [] (report span cause >>= fun u => do
      let path ← narrowableChild ch
      if ← typeTest t path u span then return factsOf path (.is u) (.isNot u)
      return {}) fun _ => True :=
    (course_report span cause fun _ => .refl _).andThen fun u => htest fun hu => .inl (.inr hu)
  refine course_operand h none ?_ fun t _ => ?_
  · exact course_resolveType w span (fun u => htest fun _ => .inl (.inl rfl)) (hreport _)
  · exact course_resolveType w span (fun u => htest False.elim) (hreport t)

theorem course_noneCheck (span : Span) (h : ch.Runs c I) :
    Course c I False [] [ch.expr] (noneCheck span ch) fun _ => True := by
  refine course_operand h none (.done _) fun t ht => ?_
  rw [if_neg (isError_of_ne ht)]
  split
  · exact (course_fault _ _ False.elim).returns _
  · exact .after (quiet_narrowable _) fun _ => .done _

theorem course_conjunction (h : l.Runs c I) (h' : r.Runs c I) :
    Course c I False [] [l.expr, r.expr] (conjunction l r) fun _ => True := by
  rw [conjunction_eq]
  exact (course_condition h).bind fun _ => ((course_condition h').inBranch _).returns _

theorem course_disjunction (h : l.Runs c I) (h' : r.Runs c I) :
    Course c I False [] [l.expr, r.expr] (disjunction l r) fun _ => True := by
  rw [disjunction_eq]
  exact (course_condition h).bind fun _ => ((course_condition h').inBranch _).returns _

theorem course_negatedIf {L : List Span} {E : List Expr} {x : Infer Facts} (flag : Bool)
    (h : Course c I A L E x fun _ => True) : Course c I A L E (negatedIf flag x) fun _ => True :=
  h.returns _

theorem course_negation (h : ch.Runs c I) :
    Course c I False [] [ch.expr] (negation ch) fun _ => True :=
  (course_condition h).returns _

end Infer

end TypeFlow
