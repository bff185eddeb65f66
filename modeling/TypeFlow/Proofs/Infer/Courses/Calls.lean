import TypeFlow.Proofs.Infer.Courses.Values
import TypeFlow.Proofs.Infer.Rules.Calls

namespace TypeFlow

def GenericChild.Runs (c : BodyContext) (I : List Span → Prop) (g : GenericChild) : Prop :=
  ∀ ch, g = .value ch → ch.Runs c I

def GenericChild.places (span : Span) : GenericChild → List Span
  | .type _ => [span]
  | .value _ => []

namespace Infer

variable {c : BodyContext} {I : List Span → Prop} {A : Prop} {L M : List Span} {ch : Child}
  {cs : List Child} {args : List (Child × Ty)} {explicit : List GenericChild}

theorem course_checkArgs (h : ∀ ch ∈ cs, ch.Runs c I) (target : Nat → Option Ty) (i : Nat) :
    Course c I A [] (cs.map (·.expr)) (checkArgs target i cs) fun _ => True := by
  induction cs generalizing A i with
  | nil => exact .done _
  | cons ch cs ih =>
    obtain ⟨hch, hcs⟩ := List.forall_mem_cons.mp h
    unfold checkArgs
    split
    · exact (course_check hch _).discard.bind fun _ => ih hcs (i + 1)
    · exact (course_ignored hch none).bind fun _ => ih hcs (i + 1)

theorem course_refused (h : ∀ ch ∈ cs, ch.Runs c I) (span : Span) (cause : Cause) :
    Course c I A [span] (cs.map (·.expr)) (inferAll cs >>= fun _ => report span cause) fun _ => True := by
  have hreport : Course c I True [span] [] (report span cause) (· = .error) :=
    course_report span cause fun _ => .refl _
  exact ((course_inferAll h).bind fun _ => hreport.trivial).within (.refl _) (by simp)

theorem course_arity {α : Type} {f : Bool → Infer α} {Q : α → Prop} {span : Span}
    (h : ∀ ch ∈ cs, ch.Runs c I) (n : Nat) (variadic : Bool)
    (ht : Course c I A L (cs.map (·.expr)) (f true) Q) (hf : Course c I True M [] (f false) Q)
    (hL : (span :: M).Sublist L) :
    Course c I A L (cs.map (·.expr)) (arity span cs n variadic >>= f) Q := by
  by_cases hk : Takes n variadic cs.length
  · rw [arity_of_takes span hk, pure_bind]
    exact ht
  · obtain ⟨cause, heq⟩ := arity_of_not_takes span hk
    have hfault : Course c I True [span] [] (discard (report span cause)) fun _ => True :=
      course_fault span cause fun _ => .refl _
    rw [heq]
    simp only [bind_assoc, pure_bind]
    exact ((course_inferAll h).bind fun _ => hfault.bind fun _ => hf).within hL (by simp)

theorem course_genericArg (span : Span) (p : Option GenericParam) {g : GenericChild} (h : g.Runs c I) :
    Course c I A (g.places span) [] (genericArg span p g) fun _ => True := by
  cases g with
  | type w =>
    have hnone (a : ExplicitArg) : Course c I A [span] [] (pure a : Infer ExplicitArg) fun _ => True :=
      (Course.done a).within (List.nil_sublist _) (List.Subset.refl _)
    refine .after quiet_registry fun r => ?_
    split
    · exact hnone _
    · refine course_resolveType w span (fun t => hnone _) fun cause => ?_
      exact (course_report span cause fun _ => .refl _).returns _
  | value ch =>
    have hread : Quiet c (get : Infer BodyState) := fun _ => ⟨rfl, rfl, rfl⟩
    refine Course.within (F := []) ((course_ignored (h ch rfl) _).andThen fun _ => ?_) (.refl _) (by simp)
    exact .after quiet_registry fun r => .after hread fun s => .done _

theorem course_genericArgs (span : Span) (gs : Generics) (h : ∀ g ∈ explicit, g.Runs c I) :
    Course c I A (explicit.flatMap (·.places span)) [] (genericArgs span gs explicit) fun _ => True := by
  induction explicit generalizing A gs with
  | nil => exact .done _
  | cons g explicit ih =>
    obtain ⟨hg, hrest⟩ := List.forall_mem_cons.mp h
    exact (course_genericArg span gs.head? hg).bind fun a => (ih gs.tail hrest).returns _

theorem course_firstPass (h : ∀ a ∈ args, a.1.Runs c I) :
    Course c I A [] (args.map (·.1.expr)) (firstPass args) fun _ => True := by
  induction args generalizing A with
  | nil => exact .done _
  | cons a args ih =>
    obtain ⟨ch, t⟩ := a
    obtain ⟨hch, hargs⟩ := List.forall_mem_cons.mp h
    refine .ite (fun _ => ?_) fun _ => ?_
    · exact (course_infer hch none).bind fun u => (ih hargs).returns _
    · exact (course_check hch t).discard.bind fun _ => (ih hargs).returns _

theorem course_secondPass (inst : Instantiation) (h : ∀ a ∈ args, a.1.Runs c I) (states : List ArgState) :
    Course c I A (args.map (·.1.span)) [] (secondPass inst args states) fun _ => True := by
  induction args generalizing A states with
  | nil => exact .done _
  | cons a args ih =>
    obtain ⟨ch, t⟩ := a
    obtain ⟨hch, hargs⟩ := List.forall_mem_cons.mp h
    cases states with
    | nil => exact (Course.done _).within (List.nil_sublist _) (List.Subset.refl _)
    | cons s states =>
      cases s with
      | checked => exact (ih hargs states).within (List.sublist_cons_self _ _) (List.Subset.refl _)
      | inferred found =>
        unfold secondPass
        refine .ite (fun _ => ?_) fun _ => ?_
        · exact ((course_check hch _).discard.bind fun _ => ih hargs states).within
            (List.sublist_cons_self _ _) (List.nil_subset _)
        · refine .after (quiet_assignable _ _) fun b => .ite (fun _ => ?_) fun _ => ?_
          · exact (ih hargs states).within (List.sublist_cons_self _ _) (List.Subset.refl _)
          · exact (course_fault ch.span _ fun _ => .refl _).bind fun _ => ih hargs states

theorem course_checkInstantiated (inst : Instantiation) (h : ∀ a ∈ args, a.1.Runs c I) :
    Course c I A [] (args.map (·.1.expr)) (checkInstantiated inst args) fun _ => True := by
  induction args generalizing A with
  | nil => exact .done _
  | cons a args ih =>
    obtain ⟨ch, t⟩ := a
    obtain ⟨hch, hargs⟩ := List.forall_mem_cons.mp h
    exact (course_check hch _).discard.bind fun _ => ih hargs

theorem course_inferFirsts (h : ∀ a ∈ args, a.1.Runs c I) :
    Course c I A [] (args.map (·.1.expr)) (inferAll (args.map (·.1))) fun _ => True := by
  have hall := course_inferAll (A := A) (List.forall_mem_map.mpr h)
  rwa [List.map_map] at hall

theorem course_instantiate (span : Span) (gs : Generics) (he : ∀ g ∈ explicit, g.Runs c I)
    (h : ∀ a ∈ args, a.1.Runs c I) :
    Course c I A (explicit.flatMap (·.places span) ++ args.map (·.1.span) ++ [span])
      (args.map (·.1.expr)) (instantiate span gs explicit args) fun _ => True := by
  have hfault {α : Type} (a : α) (cause : Cause) : Course c I True [span] [] (do
      discard <| report span cause
      return a) fun _ => True := (course_fault span cause fun _ => .refl _).returns _
  have hvars : Quiet c (takeVars gs.length) := fun _ => ⟨rfl, rfl, rfl⟩
  have hread : Quiet c (read : Infer BodyContext) := fun _ => ⟨rfl, rfl, rfl⟩
  refine .ite (fun _ => ?_) fun _ => ?_
  · refine ((course_firstPass h).bind (M := args.map (·.1.span) ++ [span]) (F := []) fun states => ?_).within
      (by simp) (by simp)
    refine .after hvars fun base => .after quiet_registry fun r => .after hread fun d => ?_
    split
    · exact ((course_secondPass _ h states).returns _).within (by simp) (List.Subset.refl _)
    · exact (hfault _ _).within (by simp) (List.Subset.refl _)
  · refine ((course_genericArgs span gs he).bind (M := [span]) (F := args.map (·.1.expr)) fun given => ?_).within
      (by simp) (by simp)
    refine .after quiet_registry fun r => .after hread fun d => ?_
    split
    · exact ((course_checkInstantiated _ h).returns _).within (by simp) (List.Subset.refl _)
    · exact ((course_inferFirsts h).bind fun _ => hfault _ _).within (by simp) (by simp)

theorem course_argsOf (h : ∀ ch ∈ cs, ch.Runs c I) (span : Span) (n : Nat) (variadic : Bool)
    (target : Nat → Option Ty) (t : Ty) :
    Course c I False [span] (cs.map (·.expr)) (do
      if ← arity span cs n variadic then checkArgs target 0 cs
      return t) fun _ => True := by
  refine course_arity h n variadic ?_ (.done _) (.refl _)
  exact ((course_checkArgs h target 0).returns _).within (List.nil_sublist _) (List.Subset.refl _)

theorem course_callLocal (span : Span) (callee : String) (t : Ty) (h : ∀ ch ∈ cs, ch.Runs c I) :
    Course c I False [span] (cs.map (·.expr)) (callLocal span callee t cs) fun _ => True := by
  cases t with
  | function params variadic ret => exact course_argsOf h span _ _ _ _
  | error => exact ((course_inferAll h).returns _).within (List.nil_sublist _) (List.Subset.refl _)
  | _ => exact course_refused h span _

theorem course_site {x : Infer (Option Instantiation)} {E : List Expr}
    (hx : Course c I A L E x fun _ => True) (id : Nat) (f : Instantiation → Ty) :
    Course c I A L E (do
      match ← x with
      | some inst =>
        recordInst id inst
        return f inst
      | none => return .error) fun _ => True := by
  have hrecord (inst : Instantiation) : Quiet c (recordInst id inst) := fun _ => ⟨rfl, rfl, rfl⟩
  refine hx.andThen fun o => ?_
  cases o with
  | some inst => exact .after (hrecord inst) fun _ => .done _
  | none => exact .done _

theorem course_callFunction (site : Site) (sig : Signature) (he : ∀ g ∈ explicit, g.Runs c I)
    (h : ∀ ch ∈ cs, ch.Runs c I) :
    Course c I False (explicit.flatMap (·.places site.span) ++ cs.map (·.span) ++ [site.span])
      (cs.map (·.expr)) (callFunction site sig explicit cs) fun _ => True := by
  unfold callFunction
  refine .ite (fun _ => .ite (fun _ => ?_) fun _ => ?_) fun _ => ?_
  · exact (course_refused h _ _).within (by simp) (List.Subset.refl _)
  · exact (course_argsOf h _ _ _ _ _).within (by simp) (List.Subset.refl _)
  · refine course_arity h _ _ ?_ (.done _) (by simp)
    have hargs : ∀ a ∈ cs.zip ((List.range cs.length).map fun i => (sig.paramAt i).getD .error),
        a.1.Runs c I := fun a ha => h a.1 (List.of_mem_zip ha).1
    have hsite := course_site (course_instantiate (A := False) site.span sig.generics he hargs) site.id
      (·.apply sig.ret)
    rwa [map_zip_left Child.span (by simp), map_zip_left Child.expr (by simp)] at hsite

theorem course_call (site : Site) (callee : String) (he : ∀ g ∈ explicit, g.Runs c I)
    (h : ∀ ch ∈ cs, ch.Runs c I) :
    Course c I False (explicit.flatMap (·.places site.span) ++ cs.map (·.span) ++ [site.span])
      (cs.map (·.expr)) (call site callee explicit cs) fun _ => True := by
  refine .after (quiet_lookupLocal callee) fun o => ?_
  cases o with
  | some l =>
    refine .after (quiet_readLocal _ _) fun _ => ?_
    exact (course_callLocal _ _ _ h).within (by simp) (List.Subset.refl _)
  | none =>
    refine .after quiet_registry fun r => ?_
    split
    · exact course_callFunction site _ he h
    · exact (course_refused h _ _).within (by simp) (List.Subset.refl _)

theorem course_writePath (path : Option Path) (span : Span) (t : Ty) :
    Course c I A [span] [] (match path with
      | some p => do
        write p span
        return t
      | none => return t) fun _ => True := by
  split
  · exact (course_write _ span fun _ => .refl _).returns _
  · exact (Course.done t).within (List.nil_sublist _) (List.Subset.refl _)

theorem course_writeWhen (m : Bool) (path : Option Path) (span : Span) (t : Ty) :
    Course c I A (if m then [span] else []) [] (if m then
        match path with
        | some p => do
          write p span
          return t
        | none => return t
      else return t) fun _ => True := by
  cases m with
  | true => exact course_writePath path span t
  | false => exact .done t

theorem course_methodCall (span : Span) (name : String) (h : ch.Runs c I) (h' : ∀ a ∈ cs, a.Runs c I) :
    Course c I False [span, span] (ch.expr :: cs.map (·.expr)) (methodCall span ch name cs) fun _ => True := by
  have hargs {B : Prop} : Course c I B [span, span] (cs.map (·.expr)) (do
      inferAll cs
      return Ty.error) fun _ => True :=
    ((course_inferAll h').returns _).within (List.nil_sublist _) (List.Subset.refl _)
  refine course_operand h none hargs fun t ht => ?_
  rw [if_neg (isError_of_ne ht)]
  refine .after quiet_registry fun r => ?_
  split
  · exact (course_refused h' span _).within (by simp) (List.Subset.refl _)
  · next found heq =>
    have hwrite {B : Prop} (t : Ty) := (course_writeWhen (c := c) (I := I) (A := B)
      found.method.mutReceiver ch.path? span t).within (M := [span]) (by split <;> simp) (List.Subset.refl _)
    refine course_arity h' _ _ ?_ (hwrite _) (.refl _)
    exact ((course_checkArgs h' _ 0).bind fun _ => hwrite _).within (by simp) (by simp)

theorem course_mutArg (h : ch.Runs c I) (x : Option Ty) :
    Course c I False [ch.span] [ch.expr] (mutArg ch x) fun _ => True :=
  (course_infer h x).bind fun t => course_writePath ch.path? ch.span t

theorem course_borrow (span : Span) (m : Bool) (h : ch.Runs c I) (x : Option Ty) :
    Course c I False (if m then [span] else []) [ch.expr] (borrow span m ch x) fun _ => True :=
  (course_infer h (borrowHint x)).bind fun _ => course_writeWhen m ch.path? span _

variable {fs : List FieldChild} {declared : List (String × Ty)}

theorem course_unknownFields (self : Ty) (h : ∀ f ∈ fs, f.value.Runs c I) :
    Course c I A (fs.map (·.span)) ((fs.filter (isUnknown declared)).map (·.value.expr))
      (unknownFields self declared fs) fun _ => True := by
  induction fs generalizing A with
  | nil => exact .done _
  | cons f fs ih =>
    obtain ⟨hf, hfs⟩ := List.forall_mem_cons.mp h
    unfold unknownFields
    by_cases hunknown : isUnknown declared f = true
    · have hfault (cause : Cause) : Course c I True [f.span] [] (discard (report f.span cause)) fun _ => True :=
        course_fault f.span cause fun _ => .refl _
      rw [if_pos hunknown, List.filter_cons_of_pos hunknown]
      exact (course_ignored hf none).bind fun _ => (hfault _).bind fun _ => ih hfs
    · rw [if_neg hunknown, List.filter_cons_of_neg hunknown]
      exact (ih hfs).within (List.sublist_cons_self _ _) (List.Subset.refl _)

theorem course_checkFields (h : ∀ a ∈ args, a.1.Runs c I) :
    Course c I A [] (args.map (·.1.expr)) (checkFields args) fun _ => True := by
  induction args generalizing A with
  | nil => exact .done _
  | cons a args ih =>
    obtain ⟨ch, t⟩ := a
    obtain ⟨hch, hargs⟩ := List.forall_mem_cons.mp h
    exact (course_check hch _).discard.bind fun _ => ih hargs

theorem sublist_declaredFields (declared : List (String × Ty)) (fs : List FieldChild) :
    ((declaredFields declared fs).map (·.1.span)).Sublist (fs.map (·.value.span)) := by
  induction fs with
  | nil => exact .slnil
  | cons f fs ih =>
    cases hf : declared.lookup f.name <;> simp only [declaredFields, List.filterMap_cons, hf] at ih ⊢
    · exact ih.cons _
    · exact ih.cons_cons _

theorem subset_declaredFields (declared : List (String × Ty)) (fs : List FieldChild) :
    fs.map (·.value.expr) ⊆ (fs.filter (isUnknown declared)).map (·.value.expr) ++
      (declaredFields declared fs).map (·.1.expr) := by
  intro e he
  obtain ⟨f, hf, rfl⟩ := List.mem_map.mp he
  cases hlookup : declared.lookup f.name with
  | none =>
    refine List.mem_append_left _ (List.mem_map.mpr ⟨f, List.mem_filter.mpr ⟨hf, ?_⟩, rfl⟩)
    simp [isUnknown, hlookup]
  | some t =>
    refine List.mem_append_right _ (List.mem_map.mpr ⟨(f.value, t), ?_, rfl⟩)
    exact List.mem_filterMap.mpr ⟨f, hf, by simp [hlookup]⟩

theorem course_constructStruct (site : Site) (d : DeclId) (gs : Generics) (he : ∀ g ∈ explicit, g.Runs c I)
    (h : ∀ f ∈ fs, f.value.Runs c I) :
    Course c I False (fs.map (·.span) ++ explicit.flatMap (·.places site.span) ++ fs.map (·.value.span) ++
      [site.span]) (fs.map (·.value.expr)) (constructStruct site d gs declared explicit fs) fun _ => True := by
  have hknown : ∀ a ∈ declaredFields declared fs, a.1.Runs c I := by
    intro a ha
    obtain ⟨f, hf, hlookup⟩ := List.mem_filterMap.mp ha
    obtain ⟨t, -, rfl⟩ := Option.map_eq_some_iff.mp hlookup
    exact h f hf
  have hspans := sublist_declaredFields declared fs
  simp only [constructStruct, knownFields_eq, bind_assoc, pure_bind]
  refine Course.within (Course.bind (F := (declaredFields declared fs).map (·.1.expr))
    (M := explicit.flatMap (·.places site.span) ++ fs.map (·.value.span) ++ [site.span])
    (course_unknownFields _ h) fun _ => ?_) (by simp) (subset_declaredFields declared fs)
  refine .ite (fun _ => .ite (fun _ => ?_) fun _ => ?_) fun _ => ?_
  · exact ((course_checkFields hknown).returns _).within (List.nil_sublist _) (List.Subset.refl _)
  · have hrefused := course_refused (A := True) (List.forall_mem_map.mpr hknown) site.span
      (.genericArgCount 0 0 explicit.length)
    rw [List.map_map] at hrefused
    exact hrefused.within (by simp) (List.Subset.refl _)
  · refine (course_site (course_instantiate site.span gs he hknown) site.id _).within ?_ (List.Subset.refl _)
    exact (hspans.append_left _).append_right _

theorem course_construct (site : Site) (name : String) (he : ∀ g ∈ explicit, g.Runs c I)
    (h : ∀ f ∈ fs, f.value.Runs c I) :
    Course c I False (fs.map (·.span) ++ explicit.flatMap (·.places site.span) ++ fs.map (·.value.span) ++
      [site.span]) (fs.map (·.value.expr)) (construct site name explicit fs) fun _ => True := by
  have hrefused (cause : Cause) : Course c I False (fs.map (·.span) ++ explicit.flatMap (·.places site.span) ++
      fs.map (·.value.span) ++ [site.span]) (fs.map (·.value.expr)) (do
        inferAll (fs.map (·.value))
        report site.span cause) fun _ => True := by
    have hall := course_refused (A := False) (List.forall_mem_map.mpr h) site.span cause
    rw [List.map_map] at hall
    exact hall.within (by simp) (List.Subset.refl _)
  refine .after quiet_registry fun r => ?_
  split
  · exact hrefused _
  · exact hrefused _
  · split
    · exact course_constructStruct site _ _ he h
    · exact hrefused _

end Infer

end TypeFlow
