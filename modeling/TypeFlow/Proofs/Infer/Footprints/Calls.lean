import TypeFlow.Proofs.Infer.Footprints.Values

namespace TypeFlow

namespace Registry

variable {r : Registry} {name : String} {found : FoundMethod}

theorem anyMutReceiver_of_methodOn {d : DeclId} {args : List Ty} (h : r.methodOn d args name = some found)
    (hm : found.method.mutReceiver = true) : r.anyMutReceiver name = true := by
  obtain ⟨m, hmethod, rfl⟩ := Option.map_eq_some_iff.mp h
  have hname := List.find?_some hmethod
  simp only [Bool.and_eq_true] at hname
  exact List.any_eq_true.mpr ⟨m, List.mem_of_find?_eq_some hmethod, Bool.and_eq_true_iff.mpr ⟨hname.2, hm⟩⟩

theorem anyMutReceiver_of_findMethod {t : Ty} (h : r.findMethod t name = some found)
    (hm : found.method.mutReceiver = true) : r.anyMutReceiver name = true := by
  unfold findMethod at h
  split at h
  · rcases Option.or_eq_some_iff.mp h with h | ⟨-, h⟩
    · exact anyMutReceiver_of_methodOn h hm
    · obtain ⟨i, -, hi⟩ := List.exists_of_findSome?_eq_some h
      split at hi
      · exact anyMutReceiver_of_methodOn hi hm
      · cases hi
  · exact anyMutReceiver_of_methodOn h hm
  · cases h

end Registry

def GenericChild.Treads (c : BodyContext) (F : Footprint) (g : GenericChild) : Prop :=
  ∀ ch, g = .value ch → ch.Treads c F

def Child.MayWrite (F : Footprint) (ch : Child) : Prop := ∀ p, ch.path? = some p → F.writes p

namespace Infer

variable {c : BodyContext} {F : Footprint} {ch : Child} {cs : List Child} {args : List (Child × Ty)}
  {explicit : List GenericChild} {x : Option Ty}

theorem treads_arity (span : Span) (h : ∀ ch ∈ cs, ch.Treads c F) (n : Nat) (variadic : Bool) :
    Inside c F (arity span cs n variadic) := by
  unfold arity
  extract_lets expected
  refine .ite (fun _ => .done _) fun _ => ?_
  exact (treads_inferAll h).andThen fun _ => (treads_fault span _).andThen fun _ => .done _

theorem treads_checkArgs (h : ∀ ch ∈ cs, ch.Treads c F) (target : Nat → Option Ty) (i : Nat) :
    Inside c F (checkArgs target i cs) := by
  induction cs generalizing i with
  | nil => exact .done _
  | cons ch cs ih =>
    obtain ⟨hch, hcs⟩ := List.forall_mem_cons.mp h
    unfold checkArgs
    split
    · exact (treads_check hch _).discard.andThen fun _ => ih hcs (i + 1)
    · exact (treads_infer hch none).discard.andThen fun _ => ih hcs (i + 1)

theorem treads_argsOf {α : Type} (span : Span) (h : ∀ ch ∈ cs, ch.Treads c F) (n : Nat) (variadic : Bool)
    (target : Nat → Option Ty) {x : Infer α} (hx : Inside c F x) :
    Inside c F (do
      if ← arity span cs n variadic then checkArgs target 0 cs
      x) := by
  refine (treads_arity span h n variadic).andThen fun b => .ite (fun _ => ?_) fun _ => ?_
  · exact (treads_checkArgs h target 0).andThen fun _ => hx
  · exact hx

theorem treads_genericArg (span : Span) (p : Option GenericParam) {g : GenericChild} (h : g.Treads c F) :
    Inside c F (genericArg span p g) := by
  cases g with
  | type w =>
    refine treads_registry.andThen fun r => ?_
    split
    · exact .done _
    · exact (treads_resolveType w span).andThen fun _ => .done _
  | value ch =>
    refine (treads_infer (h ch rfl) _).discard.andThen fun _ => treads_registry.andThen fun r => ?_
    exact (treads_constValue r ch.expr).andThen fun v => .done ((v.map ExplicitArg.const).getD .notConstant)

theorem treads_genericArgs (span : Span) (gs : Generics) (h : ∀ g ∈ explicit, g.Treads c F) :
    Inside c F (genericArgs span gs explicit) := by
  induction explicit generalizing gs with
  | nil => exact .done _
  | cons g explicit ih =>
    obtain ⟨hg, hrest⟩ := List.forall_mem_cons.mp h
    exact (treads_genericArg span gs.head? hg).andThen fun _ => (ih gs.tail hrest).andThen fun _ => .done _

theorem treads_firstPass (h : ∀ a ∈ args, a.1.Treads c F) : Inside c F (firstPass args) := by
  induction args with
  | nil => exact .done _
  | cons a args ih =>
    obtain ⟨ch, t⟩ := a
    obtain ⟨hch, hargs⟩ := List.forall_mem_cons.mp h
    refine .ite (fun _ => ?_) fun _ => ?_
    · exact (treads_infer hch none).andThen fun u => (ih hargs).andThen fun _ => .done _
    · exact (treads_check hch t).discard.andThen fun _ => (ih hargs).andThen fun _ => .done _

theorem treads_secondPass (inst : Instantiation) (h : ∀ a ∈ args, a.1.Treads c F) (states : List ArgState) :
    Inside c F (secondPass inst args states) := by
  induction args generalizing states with
  | nil => exact .done _
  | cons a args ih =>
    obtain ⟨ch, t⟩ := a
    obtain ⟨hch, hargs⟩ := List.forall_mem_cons.mp h
    cases states with
    | nil => exact .done _
    | cons s states =>
      cases s with
      | checked => exact ih hargs states
      | inferred found =>
        unfold secondPass
        refine .ite (fun _ => ?_) fun _ => ?_
        · exact (treads_check hch _).discard.andThen fun _ => ih hargs states
        · refine (treads_assignable _ _).andThen fun b => .ite (fun _ => ?_) fun _ => ?_
          · exact ih hargs states
          · exact (treads_fault ch.span _).andThen fun _ => ih hargs states

theorem treads_checkInstantiated (inst : Instantiation) (h : ∀ a ∈ args, a.1.Treads c F) :
    Inside c F (checkInstantiated inst args) := by
  induction args with
  | nil => exact .done _
  | cons a args ih =>
    obtain ⟨ch, t⟩ := a
    obtain ⟨hch, hargs⟩ := List.forall_mem_cons.mp h
    exact (treads_check hch _).discard.andThen fun _ => ih hargs

theorem treads_instantiate (span : Span) (gs : Generics) (he : ∀ g ∈ explicit, g.Treads c F)
    (h : ∀ a ∈ args, a.1.Treads c F) : Inside c F (instantiate span gs explicit args) := by
  refine .ite (fun _ => ?_) fun _ => ?_
  · refine (treads_firstPass h).andThen fun states => (Treads.takeVars _).andThen fun base => ?_
    refine treads_registry.andThen fun r => Treads.context.andThen fun d => ?_
    split
    · exact (treads_secondPass _ h states).andThen fun _ => .done _
    · exact (treads_fault span _).andThen fun _ => .done _
  · refine (treads_genericArgs span gs he).andThen fun given => ?_
    refine treads_registry.andThen fun r => Treads.context.andThen fun d => ?_
    split
    · exact (treads_checkInstantiated _ h).andThen fun _ => .done _
    · refine (treads_inferAll (List.forall_mem_map.mpr h)).andThen fun _ => ?_
      exact (treads_fault span _).andThen fun _ => .done _

theorem treads_site {y : Infer (Option Instantiation)} (h : Inside c F y) (id : Nat) (f : Instantiation → Ty) :
    Inside c F (do
      match ← y with
      | some inst =>
        recordInst id inst
        return f inst
      | none => return .error) := by
  refine h.andThen fun o => ?_
  split
  · exact (Treads.recordInst id _).andThen fun _ => .done _
  · exact .done _

theorem treads_callLocal (span : Span) (callee : String) (t : Ty) (h : ∀ ch ∈ cs, ch.Treads c F) :
    Inside c F (callLocal span callee t cs) := by
  unfold callLocal
  split
  · exact treads_argsOf span h _ _ _ (.done _)
  · exact (treads_inferAll h).andThen fun _ => .done _
  · exact treads_refused h span _

theorem treads_callFunction (site : Site) (sig : Signature) (he : ∀ g ∈ explicit, g.Treads c F)
    (h : ∀ ch ∈ cs, ch.Treads c F) : Inside c F (callFunction site sig explicit cs) := by
  refine .ite (fun _ => .ite (fun _ => treads_refused h _ _) fun _ => ?_) fun _ => ?_
  · exact treads_argsOf site.span h _ _ _ (.done _)
  · refine (treads_arity site.span h _ _).andThen fun b => .ite (fun _ => ?_) fun _ => .done _
    extract_lets patterns
    exact treads_site (treads_instantiate _ _ he fun a ha => h a.1 (List.of_mem_zip ha).1) site.id _

theorem treads_call (site : Site) (callee : String) (he : ∀ g ∈ explicit, g.Treads c F)
    (h : ∀ ch ∈ cs, ch.Treads c F) : Inside c F (call site callee explicit cs) := by
  refine (treads_lookupLocal callee).andThen fun o => ?_
  split
  · exact (Treads.readLocal _ _).andThen fun _ => treads_callLocal _ _ _ h
  · refine treads_registry.andThen fun r => ?_
    split
    · exact treads_callFunction site _ he h
    · exact treads_refused h _ _

theorem treads_writePath (span : Span) (h : ch.MayWrite F) (t : Ty) :
    Inside c F (do
      match ch.path? with
      | some p => write p span
      | none => Pure.pure ()
      return t) := by
  split
  · next p hp => exact (treads_write span (h p hp)).andThen fun _ => .done _
  · exact .done _

theorem treads_writeWhen (span : Span) (m : Bool) (h : m = true → ch.MayWrite F) (t : Ty) :
    Inside c F (do
      if m then
        match ch.path? with
        | some p => write p span
        | none => Pure.pure ()
      return t) := by
  cases m with
  | true => exact treads_writePath span (h rfl) t
  | false => exact .done _

theorem treads_methodCall (span : Span) (h : ch.Treads c F) (name : String)
    (hw : c.registry.anyMutReceiver name = true → ch.MayWrite F) (hargs : ∀ ch ∈ cs, ch.Treads c F) :
    Inside c F (methodCall span ch name cs) := by
  refine (treads_infer h none).andThen fun t => .ite (fun _ => ?_) fun _ => ?_
  · exact (treads_inferAll hargs).andThen fun _ => .done _
  · refine treads_registry.bind fun r hr => ?_
    subst hr
    split
    · exact treads_refused hargs span _
    · next found hfound =>
      extract_lets sig
      refine treads_argsOf span hargs _ _ _ (treads_writeWhen span _ (fun hm => hw ?_) _)
      exact Registry.anyMutReceiver_of_findMethod hfound hm

theorem treads_mutArg (h : ch.Treads c F) (hw : ch.MayWrite F) (x : Option Ty) : Inside c F (mutArg ch x) :=
  (treads_infer h x).andThen fun t => treads_writePath ch.span hw t

theorem treads_borrow (span : Span) (m : Bool) (h : ch.Treads c F) (hw : m = true → ch.MayWrite F)
    (x : Option Ty) : Inside c F (borrow span m ch x) :=
  (treads_infer h _).andThen fun _ => treads_writeWhen span m hw _

variable {fs : List FieldChild}

theorem treads_knownFields (self : Ty) (declared : List (String × Ty)) (h : ∀ f ∈ fs, f.value.Treads c F) :
    Treads c F (knownFields self declared fs) fun known => ∀ a ∈ known, a.1.Treads c F := by
  induction fs with
  | nil => exact .pure nofun
  | cons f fs ih =>
    obtain ⟨hf, hfs⟩ := List.forall_mem_cons.mp h
    unfold knownFields
    split
    · exact (ih hfs).map fun known hknown => List.forall_mem_cons.mpr ⟨hf, hknown⟩
    · exact (treads_infer hf none).discard.andThen fun _ => (treads_fault _ _).andThen fun _ => ih hfs

theorem treads_checkFields (h : ∀ a ∈ args, a.1.Treads c F) : Inside c F (checkFields args) := by
  induction args with
  | nil => exact .done _
  | cons a args ih =>
    obtain ⟨ch, t⟩ := a
    obtain ⟨hch, hargs⟩ := List.forall_mem_cons.mp h
    exact (treads_check hch t).discard.andThen fun _ => ih hargs

theorem treads_constructStruct (site : Site) (d : DeclId) (gs : Generics) (declared : List (String × Ty))
    (he : ∀ g ∈ explicit, g.Treads c F) (h : ∀ f ∈ fs, f.value.Treads c F) :
    Inside c F (constructStruct site d gs declared explicit fs) := by
  unfold constructStruct
  extract_lets self
  refine (treads_knownFields self declared h).bind fun known hknown => ?_
  refine .ite (fun _ => .ite (fun _ => ?_) fun _ => ?_) fun _ => ?_
  · exact (treads_checkFields hknown).andThen fun _ => .done _
  · exact treads_refused (List.forall_mem_map.mpr hknown) site.span _
  · exact treads_site (treads_instantiate site.span gs he hknown) site.id _

theorem treads_construct (site : Site) (name : String) (he : ∀ g ∈ explicit, g.Treads c F)
    (h : ∀ f ∈ fs, f.value.Treads c F) : Inside c F (construct site name explicit fs) := by
  have hrefused (cause : Cause) : Inside c F (do
      inferAll (fs.map (·.value))
      report site.span cause) := treads_refused (List.forall_mem_map.mpr h) site.span cause
  refine treads_registry.andThen fun r => ?_
  split
  · exact hrefused _
  · exact hrefused _
  · split
    · exact treads_constructStruct site _ _ _ he h
    · exact hrefused _

end Infer

end TypeFlow
