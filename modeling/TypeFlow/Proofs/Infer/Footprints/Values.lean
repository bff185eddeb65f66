import TypeFlow.Proofs.Infer.Footprints.Basic

namespace TypeFlow

namespace Footprint

variable {F : Footprint}

theorem allows_empty : F.Allows {} := ⟨nofun, nofun⟩

theorem Allows.swap {f : Facts} (h : F.Allows f) : F.Allows f.swap := ⟨h.whenFalse, h.whenTrue⟩

theorem allows_factsOf {path : Option (Path × Ty)} (h : ∀ q, path = some q → F.tests q.1) (f g : Fact) :
    F.Allows (Infer.factsOf path f g) := by
  unfold Infer.factsOf
  split
  · exact ⟨List.forall_mem_singleton.mpr (h _ rfl), List.forall_mem_singleton.mpr (h _ rfl)⟩
  · exact allows_empty

end Footprint

def Child.MayTest (F : Footprint) (ch : Child) : Prop := ∀ p, ch.path? = some p → F.tests p

namespace Infer

open Footprint (allows_empty allows_factsOf)

variable {c : BodyContext} {F : Footprint} {ch left right : Child} {cs : List Child} {x : Option Ty}

theorem treads_ident (span : Span) (name : String) : Inside c F (ident span name) := by
  refine (treads_lookupLocal name).andThen fun o => ?_
  split
  · exact .readLocal _ _
  · refine treads_registry.andThen fun r => ?_
    split
    · exact .done _
    · split
      · split
        · exact .done _
        · exact (Treads.report span _).trivial
      · exact (Treads.report span _).trivial

theorem treads_enumVariant (span : Span) (enum name : String) : Inside c F (enumVariant span enum name) := by
  refine treads_registry.andThen fun r => ?_
  split
  · exact (Treads.report span _).trivial
  · split
    · exact .ite (fun _ => .done _) fun _ => (Treads.report span _).trivial
    · exact (Treads.report span _).trivial

theorem treads_knownPath (path : Option Path) : Inside c F (knownPath path) := by
  refine (treads_localPath path).andThen fun o => ?_
  split
  · exact treads_narrowed _
  · exact .done _

theorem treads_field (span : Span) (h : ch.Treads c F) (name : String) : Inside c F (field span ch name) := by
  refine (treads_infer h none).andThen fun t => .ite (fun _ => .done _) fun _ => ?_
  refine (treads_knownPath _).andThen fun o => ?_
  split
  · exact .done _
  · refine treads_registry.andThen fun r => ?_
    split
    · exact .done _
    · exact (Treads.report span _).trivial

theorem treads_integerIndex (h : ch.Treads c F) : Inside c F (integerIndex ch) := by
  refine (treads_infer h _).andThen fun t => ?_
  extract_lets isInt
  exact .ite (fun _ => .done _) fun _ => treads_fault _ _

theorem treads_indexed (span : Span) (hl : left.Treads c F) (hr : right.Treads c F) :
    Inside c F (indexed span left right) := by
  refine (treads_infer hl none).andThen fun t => .ite (fun _ => ?_) fun _ => ?_
  · exact (treads_infer hr none).discard.andThen fun _ => .done _
  · split
    · exact (treads_integerIndex hr).andThen fun _ => .done _
    · exact (treads_integerIndex hr).andThen fun _ => .done _
    · exact (treads_integerIndex hr).andThen fun _ => .done _
    · exact (treads_check hr _).discard.andThen fun _ => .done _
    · exact (treads_infer hr none).discard.andThen fun _ => (Treads.report span _).trivial

theorem treads_negated (h : ch.Treads c F) (x : Option Ty) : Inside c F (negated ch x) := by
  refine (treads_infer h x).andThen fun t => .ite (fun _ => .done _) fun _ => ?_
  split
  · exact .done _
  · exact .done _
  · exact (Treads.report _ _).trivial

theorem treads_negatedInt (site : Site) (v : Int64) (x : Option Ty) : Inside c F (negatedInt site v x) :=
  (Treads.store _ _).andThen fun _ => .done _

theorem treads_operandTypes (hl : left.Treads c F) (hr : right.Treads c F) (x : Option Ty) :
    Inside c F (operandTypes left right x) := by
  refine .ite (fun _ => ?_) fun _ => ?_
  · exact (treads_infer hr x).andThen fun _ => (treads_infer hl _).andThen fun _ => .done _
  · exact (treads_infer hl x).andThen fun _ => (treads_infer hr _).andThen fun _ => .done _

theorem treads_binary (span : Span) (op : BinaryOp) (hl : left.Treads c F) (hr : right.Treads c F)
    (x : Option Ty) : Inside c F (binary span op left right x) := by
  have hreport (cause : Cause) : Inside c F (report span cause) := (Treads.report span cause).trivial
  have hfault (p : Prop) [Decidable p] (cause : Cause) : Inside c F (do
      unless p do discard <| report span cause
      return Ty.prim .bool) :=
    .ite (fun _ => (Treads.done _).andThen fun _ => .done _) fun _ => (treads_fault _ _).andThen fun _ => .done _
  refine (treads_operandTypes hl hr _).andThen fun (l, r) => .ite (fun _ => .done _) fun _ => ?_
  dsimp only
  cases op with
  | eq | notEq =>
    refine (treads_assignable _ _).andThen fun a => (treads_assignable _ _).andThen fun b => hfault _ _
  | lt | ltEq | gt | gtEq => exact hfault _ _
  | add => exact .ite (fun _ => .done _) fun _ => .ite (fun _ => .done _) fun _ => hreport _
  | sub | mul | div | rem => exact .ite (fun _ => .done _) fun _ => hreport _
  | and | or => exact .done _

theorem treads_narrowingOf (path : Option (Path × Ty)) : Inside c F (narrowingOf path) := by
  unfold narrowingOf
  split
  · exact treads_narrowing _
  · exact .done _

theorem treads_typeTest (subject : Ty) (path : Option (Path × Ty)) (target : Ty) (span : Span) :
    Inside c F (typeTest subject path target span) := by
  refine .ite (fun _ => .done _) fun _ => (treads_narrowingOf path).andThen fun o => ?_
  split
  · exact (treads_fault span _).andThen fun _ => .done _
  · extract_lets tested
    refine treads_registry.andThen fun r => .ite (fun _ => .done _) fun _ => ?_
    exact (treads_fault span _).andThen fun _ => .done _

theorem treads_narrowableChild (h : ch.MayTest F) :
    Treads c F (narrowableChild ch) fun o => ∀ q, o = some q → F.tests q.1 :=
  (treads_narrowable ch.path?).imp fun _ ho q hq => h _ (ho q hq)

theorem treads_isTest (span : Span) (h : ch.Treads c F) (ht : ch.MayTest F) (w : Written) :
    Treads c F (isTest span ch w) F.Allows := by
  refine (treads_infer h none).andThen fun subject => (treads_resolveType w span).andThen fun target => ?_
  refine (treads_narrowableChild ht).bind fun path hpath => (treads_typeTest _ _ _ _).andThen fun b => ?_
  exact .ite (fun _ => .pure (allows_factsOf hpath _ _)) fun _ => .pure allows_empty

theorem treads_noneCheck (span : Span) (h : ch.Treads c F) (ht : ch.MayTest F) :
    Treads c F (noneCheck span ch) F.Allows := by
  refine (treads_infer h none).andThen fun subject => .ite (fun _ => .pure allows_empty) fun _ => ?_
  split
  · exact (treads_fault span _).andThen fun _ => .pure allows_empty
  · exact (treads_narrowableChild ht).map fun path hpath => allows_factsOf hpath _ _

theorem treads_conjunction (hl : left.Treads c F) (hr : right.Treads c F) :
    Treads c F (conjunction left right) F.Allows := by
  rw [conjunction_eq]
  refine (treads_condition hl).bind fun l hl => ?_
  refine (Treads.inBranch hl.whenTrue (treads_condition hr)).bind fun r hr => .pure ⟨?_, nofun⟩
  exact List.forall_mem_append.mpr ⟨hl.whenTrue, hr.1.whenTrue⟩

theorem treads_disjunction (hl : left.Treads c F) (hr : right.Treads c F) :
    Treads c F (disjunction left right) F.Allows := by
  rw [disjunction_eq]
  refine (treads_condition hl).bind fun l hl => ?_
  refine (Treads.inBranch hl.whenFalse (treads_condition hr)).bind fun r hr => .pure ⟨nofun, ?_⟩
  exact List.forall_mem_append.mpr ⟨hl.whenFalse, hr.1.whenFalse⟩

theorem treads_negation (h : ch.Treads c F) : Treads c F (negation ch) F.Allows :=
  (treads_condition h).map fun _ hf => hf.swap

theorem treads_negatedIf (flag : Bool) {act : Infer Facts} (h : Treads c F act F.Allows) :
    Treads c F (negatedIf flag act) F.Allows := by
  refine h.map fun f hf => ?_
  split
  · exact hf.swap
  · exact hf

theorem treads_checkAll (h : ∀ ch ∈ cs, ch.Treads c F) (t : Ty) : Inside c F (checkAll t cs) := by
  induction cs with
  | nil => exact .done _
  | cons ch cs ih =>
    obtain ⟨hch, hcs⟩ := List.forall_mem_cons.mp h
    exact (treads_check hch t).discard.andThen fun _ => ih hcs

theorem treads_array (span : Span) (h : ∀ ch ∈ cs, ch.Treads c F) (x : Option Ty) :
    Inside c F (array span cs x) := by
  unfold array
  split
  · exact (treads_checkAll h _).andThen fun _ => .done _
  · exact (treads_checkAll h _).andThen fun _ => .done _
  · split
    · exact (Treads.report span _).trivial
    · obtain ⟨hfirst, hrest⟩ := List.forall_mem_cons.mp h
      exact (treads_infer hfirst none).andThen fun t => (treads_checkAll hrest t).andThen fun _ => .done _

theorem treads_checkEntries {es : List EntryChild} (h : ∀ e ∈ es, e.key.Treads c F ∧ e.value.Treads c F)
    (key value : Ty) : Inside c F (checkEntries key value es) := by
  induction es with
  | nil => exact .done _
  | cons e es ih =>
    obtain ⟨⟨hkey, hvalue⟩, hes⟩ := List.forall_mem_cons.mp h
    exact (treads_check hkey key).discard.andThen fun _ =>
      (treads_check hvalue value).discard.andThen fun _ => ih hes

theorem treads_mapLit (span : Span) {es : List EntryChild}
    (h : ∀ e ∈ es, e.key.Treads c F ∧ e.value.Treads c F) (x : Option Ty) : Inside c F (mapLit span es x) := by
  unfold mapLit
  split
  · exact (treads_checkEntries h _ _).andThen fun _ => .done _
  · split
    · exact (Treads.report span _).trivial
    · obtain ⟨⟨hkey, hvalue⟩, hes⟩ := List.forall_mem_cons.mp h
      refine (treads_infer hkey none).andThen fun t => (treads_infer hvalue none).andThen fun u => ?_
      exact (treads_checkEntries hes t u).andThen fun _ => .done _

theorem treads_inferEach (h : ∀ ch ∈ cs, ch.Treads c F) (hints : List (Option Ty)) :
    Inside c F (inferEach cs hints) := by
  induction cs generalizing hints with
  | nil => exact .done _
  | cons ch cs ih =>
    obtain ⟨hch, hcs⟩ := List.forall_mem_cons.mp h
    exact (treads_infer hch _).andThen fun _ => (ih hcs hints.tail).andThen fun _ => .done _

theorem treads_tuple (h : ∀ ch ∈ cs, ch.Treads c F) (x : Option Ty) : Inside c F (tuple cs x) :=
  (treads_inferEach h _).andThen fun _ => .done _

end Infer

end TypeFlow
