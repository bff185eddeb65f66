import TypeFlow.Proofs.Check.Contents
import TypeFlow.Proofs.Check.Listing

namespace TypeFlow

namespace Registry

def Concrete (r : Registry) (d : DeclId) : Prop := ∀ info, r.decl? d = some info → info.isInterface = false

variable {r r' : Registry}

theorem SameTypes.concrete (h : r.SameTypes r') {d : DeclId} (hd : r.Concrete d) : r'.Concrete d := by
  intro info hinfo
  have hhead := h.head d
  rw [hinfo, Option.map_some] at hhead
  obtain ⟨old, hold, heq⟩ := Option.map_eq_some_iff.mp hhead
  exact (congrArg Prod.fst heq).symm.trans (hd old hold)

theorem concrete_of_before {ds : List DeclId} {d : DeclId} (h : (r.before ds).Concrete d) : r.Concrete d := by
  intro info hinfo
  have hbefore := h _ (by rw [decl?_before, hinfo, Option.map_some])
  split at hbefore <;> exact hbefore

theorem SameTypes.modifyDecl {d : DeclId} {f : DeclInfo → DeclInfo}
    (h : ∀ info, r.decl? d = some info → (f info).head = info.head) : r.SameTypes (r.modifyDecl d f) := by
  refine ⟨fun _ => rfl, fun e => ?_⟩
  rw [decl?_modifyDecl]
  cases hinfo : r.decl? e with
  | none => rfl
  | some info =>
    by_cases he : d = e
    · subst he
      simp [h info hinfo]
    · simp [he]

theorem sameTypes_noteImplementor (r : Registry) (i d : DeclId) : r.SameTypes (r.noteImplementor i d) := by
  unfold noteImplementor
  split
  · exact .refl r
  · refine SameTypes.modifyDecl fun info _ => ?_
    split
    · next hk => simp [DeclInfo.head, DeclInfo.isInterface, hk]
    · rfl

end Registry

structure Registration.Continues (s t : Registration) : Prop where
  types : s.registry.SameTypes t.registry
  errors : s.errors <+: t.errors

structure Registration.Leads (s t : Registration) : Prop extends s.Continues t where
  consts : s.registry.consts = t.registry.consts

namespace Registration

variable {s t u : Registration}

theorem Continues.trans (h : s.Continues t) (k : t.Continues u) : s.Continues u :=
  ⟨h.types.trans k.types, h.errors.trans k.errors⟩

theorem Leads.refl (s : Registration) : s.Leads s := ⟨⟨.refl _, List.prefix_refl _⟩, rfl⟩

theorem Leads.trans (h : s.Leads t) (k : t.Leads u) : s.Leads u :=
  ⟨h.toContinues.trans k.toContinues, h.consts.trans k.consts⟩

end Registration

namespace Register

open Registration

variable {α β : Type} {ds : List DeclId}

def Passes (ds : List DeclId) (x : Register α) : Prop :=
  ∀ s : Registration, (∀ d ∈ ds, s.registry.Concrete d) → s.Leads (x.run s).2

namespace Passes

variable {x y : Register α} {f : α → Register β}

theorem pure (a : α) : Passes ds (Pure.pure a) := fun s _ => .refl s

theorem bind (hx : Passes ds x) (hf : ∀ a, Passes ds (f a)) : Passes ds (x >>= f) := by
  intro s hs
  have hstep := hx s hs
  exact hstep.trans (hf _ _ fun d hd => hstep.types.concrete (hs d hd))

theorem ite {p : Prop} [Decidable p] (hx : Passes ds x) (hy : Passes ds y) :
    Passes ds (if p then x else y) := by
  split
  · exact hx
  · exact hy

theorem of_reads {Q : Registry → α → Prop} {es : Registry → List CheckError}
    (h : ∀ r, Reads r (es r) (Q r) x) : Passes ds x := by
  intro s _
  obtain ⟨a, ha, -⟩ := h s.registry s rfl
  rw [ha]
  exact ⟨⟨.refl _, List.prefix_append _ _⟩, rfl⟩

end Passes

theorem passes_report (span : Span) (cause : Cause) : Passes ds (report span cause) :=
  .of_reads fun _ => reads_report span cause

theorem passes_resolve (scope : Generics) (span : Span) (w : Written) : Passes ds (resolve scope span w) :=
  .of_reads fun _ => reads_resolve scope span w

theorem passes_get : Passes ds (get : Register Registration) := fun s _ => .refl s

theorem passes_modifyRegistry {f : Registry → Registry}
    (h : ∀ r : Registry, (∀ d ∈ ds, r.Concrete d) → r.SameTypes (f r) ∧ r.consts = (f r).consts) :
    Passes ds (modifyRegistry f) :=
  fun s hs => ⟨⟨(h s.registry hs).1, List.prefix_refl _⟩, (h s.registry hs).2⟩

theorem passes_keep (add : Registry → Option Registry) (span : Span) (x : String)
    (h : ∀ r r', add r = some r' → r.SameTypes r' ∧ r.consts = r'.consts) :
    Passes ds (do keep (add (← get).registry) span x) := by
  intro s _
  show s.Leads ((keep (add s.registry) span x).run s).2
  unfold keep
  split
  · next r hr => exact ⟨⟨(h s.registry r hr).1, List.prefix_refl _⟩, (h s.registry r hr).2⟩
  · exact ⟨⟨.refl _, List.prefix_append _ _⟩, rfl⟩

theorem continues_const (c : ConstItem) (s : Registration) : s.Continues ((const c).run s).2 := by
  unfold const
  extract_lets finish
  have hfinish (declared : Option Ty) (s : Registration) : s.Continues ((finish declared).run s).2 := by
    show s.Continues ((keep _ c.span c.name).run _).2
    unfold keep
    split
    · next r hr =>
      obtain ⟨-, rfl⟩ := Registry.eq_of_addConst hr
      exact ⟨⟨fun _ => rfl, fun _ => rfl⟩, List.prefix_refl _⟩
    · exact ⟨.refl _, List.prefix_append _ _⟩
  split
  · next w _ =>
    have hpasses : Passes [] (resolve [] c.span w) := passes_resolve [] c.span w
    exact (hpasses s nofun).toContinues.trans (hfinish _ _)
  · exact hfinish none s

theorem continues_consts (cs : List ConstItem) (s : Registration) : s.Continues ((consts cs).run s).2 := by
  induction cs generalizing s with
  | nil => exact (Leads.refl s).toContinues
  | cons c cs ih => exact (continues_const c s).trans (ih _)

theorem passes_fields (scope : Generics) (done : List (String × Ty)) (fs : List FieldItem) :
    Passes ds (fields scope done fs) := by
  induction fs generalizing done with
  | nil => exact .pure _
  | cons f fs ih =>
    unfold fields
    refine .ite ((passes_report _ _).bind fun _ => ih _) ?_
    exact (passes_resolve scope f.span f.ty).bind fun t => ih _

theorem passes_implementsList (d : DeclId) (scope : Generics) (span : Span) (ws : List Written) :
    Passes ds (implementsList d scope span ws) := by
  induction ws with
  | nil => exact .pure _
  | cons w ws ih =>
    unfold implementsList
    refine (passes_resolve scope span w).bind fun t => ?_
    split
    · exact ih
    · next i args =>
      have hnote : Passes ds (modifyRegistry fun r => r.noteImplementor i d) := by
        refine passes_modifyRegistry fun r _ => ⟨r.sameTypes_noteImplementor i d, ?_⟩
        unfold Registry.noteImplementor
        split <;> rfl
      exact hnote.bind fun _ => ih.bind fun _ => .pure _
    · exact (passes_report _ _).bind fun _ => ih

theorem passes_setKind {d : DeclId} (hd : d ∈ ds) {kind : DeclKind} (hkind : kind.form ≠ .interface) :
    Passes ds (modifyRegistry fun r => r.modifyDecl d fun info => { info with kind }) := by
  refine passes_modifyRegistry fun r hr => ⟨.modifyDecl fun info hinfo => ?_, rfl⟩
  have hplain : DeclInfo.isInterface { info with kind } = false := by
    unfold DeclInfo.isInterface
    cases kind with
    | interface => exact absurd rfl hkind
    | struct | enum => rfl
  rw [DeclInfo.head, DeclInfo.head, hplain, hr d hd info hinfo]

theorem passes_struct {d : DeclId} (hd : d ∈ ds) (item : StructItem) : Passes ds (struct d item) := by
  unfold struct
  refine passes_get.bind fun s => (passes_fields _ _ _).bind fun fs => ?_
  exact (passes_implementsList _ _ _ _).bind fun is => passes_setKind hd nofun

theorem passes_structs {ids : List (Option DeclId)} (h : ∀ d, some d ∈ ids → d ∈ ds) (items : List StructItem) :
    Passes ds (structs ids items) := by
  induction ids generalizing items with
  | nil => exact .pure _
  | cons id ids ih =>
    have hrest : ∀ d, some d ∈ ids → d ∈ ds := fun d hd => h d (List.mem_cons_of_mem _ hd)
    cases items with
    | nil => cases id <;> exact .pure _
    | cons item items =>
      cases id with
      | none => exact ih hrest items
      | some d => exact (passes_struct (h d List.mem_cons_self) item).bind fun _ => ih hrest items

theorem passes_backing (span : Span) (w : Option Written) : Passes ds (backing span w) := by
  unfold backing
  split
  · exact .pure _
  · refine (passes_resolve [] span _).bind fun t => ?_
    dsimp only
    split
    · exact .pure _
    · exact (passes_report _ _).bind fun _ => .pure _

theorem passes_variants (span : Span) (done vs : List String) : Passes ds (variants span done vs) := by
  induction vs generalizing done with
  | nil => exact .pure _
  | cons v vs ih =>
    unfold variants
    exact .ite ((passes_report _ _).bind fun _ => ih _) (ih _)

theorem passes_enum {d : DeclId} (hd : d ∈ ds) (item : EnumItem) : Passes ds (enum d item) := by
  unfold enum
  refine (passes_backing _ _).bind fun b => (passes_variants _ _ _).bind fun vs => ?_
  exact (passes_implementsList _ _ _ _).bind fun is => passes_setKind hd nofun

theorem passes_enums {ids : List (Option DeclId)} (h : ∀ d, some d ∈ ids → d ∈ ds) (items : List EnumItem) :
    Passes ds (enums ids items) := by
  induction ids generalizing items with
  | nil => exact .pure _
  | cons id ids ih =>
    have hrest : ∀ d, some d ∈ ids → d ∈ ds := fun d hd => h d (List.mem_cons_of_mem _ hd)
    cases items with
    | nil => cases id <;> exact .pure _
    | cons item items =>
      cases id with
      | none => exact ih hrest items
      | some d => exact (passes_enum (h d List.mem_cons_self) item).bind fun _ => ih hrest items

theorem passes_params (scope : Generics) (items : List ParamItem) : Passes ds (params scope items) := by
  induction items with
  | nil => exact .pure _
  | cons item items ih => exact (passes_resolve _ _ _).bind fun t => ih.bind fun ts => .pure _

theorem passes_returnType (scope : Generics) (span : Span) (w : Option Written) :
    Passes ds (returnType scope span w) := by
  unfold returnType
  split
  · exact .pure _
  · exact passes_resolve _ _ _

theorem passes_signature (f : FunctionItem) (generics : Generics) : Passes ds (do
    let params ← params generics f.params
    let ret ← returnType generics f.span f.ret
    let r := (← get).registry
    keep (r.addFunction ⟨f.name, generics, params, f.variadic, ret, f.span⟩) f.span f.name) := by
  refine (passes_params _ _).bind fun ps => (passes_returnType _ _ _).bind fun t => ?_
  refine passes_keep (·.addFunction ⟨f.name, generics, ps, f.variadic, t, f.span⟩) _ _ ?_
  intro r r' hadd
  obtain ⟨-, rfl⟩ := Registry.eq_of_addFunction hadd
  exact ⟨⟨fun _ => rfl, fun _ => rfl⟩, rfl⟩

theorem errors_functions {R : Registry} (fs : List FunctionItem) {s : Registration}
    (htypes : s.registry.SameTypes R) (hconsts : s.registry.consts = R.consts) :
    s.Leads ((functions fs).run s).2 ∧ ∃ signatures : List (FunctionItem × List CheckError),
      signatures.map (·.1) = fs ∧ ((functions fs).run s).2.errors =
        s.errors ++ signatures.flatMap fun f => R.listErrors f.1.generics ++ f.2 := by
  induction fs generalizing s with
  | nil => exact ⟨.refl s, [], rfl, (List.append_nil _).symm⟩
  | cons f fs ih =>
    obtain ⟨generics, hrun, -⟩ := reads_resolveGenerics f.generics s rfl
    rw [htypes.listErrors_eq hconsts] at hrun
    let listed := s.fail (R.listErrors f.generics)
    have hlisted : s.Leads listed := ⟨⟨.refl _, List.prefix_append _ _⟩, rfl⟩
    have hstep : (function f).run s = StateT.run (do
        let params ← params generics f.params
        let ret ← returnType generics f.span f.ret
        let r := (← get).registry
        keep (r.addFunction ⟨f.name, generics, params, f.variadic, ret, f.span⟩) f.span f.name) listed := by
      unfold function
      rw [StateT.run_bind, hrun]
      rfl
    have hsig : listed.Leads ((function f).run s).2 := by
      have hpasses : Passes [] _ := passes_signature f generics
      rw [hstep]
      exact hpasses listed nofun
    have hleads := hlisted.trans hsig
    obtain ⟨hrest, signatures, hfs, herrors⟩ :=
      @ih ((function f).run s).2 (hleads.types.symm.trans htypes) (hleads.consts.symm.trans hconsts)
    obtain ⟨es, hes⟩ := hsig.errors
    refine ⟨hleads.trans hrest, (f, es) :: signatures, congrArg (f :: ·) hfs, ?_⟩
    show ((functions fs).run ((function f).run s).2).2.errors = _
    rw [herrors, ← hes]
    simp [listed, Registration.fail]

theorem passes_method (m : MethodItem) : Passes ds (method m) := by
  unfold method
  refine passes_get.bind fun s => ?_
  split
  · exact passes_report _ _
  · next d _ =>
    refine passes_get.bind fun s => (passes_params _ _).bind fun ps => (passes_returnType _ _ _).bind fun t => ?_
    refine passes_keep (·.addMethod ⟨d, m.mutReceiver, ⟨m.name, [], ps, false, t, m.span⟩⟩) _ _ ?_
    intro r r' hadd
    obtain ⟨-, rfl⟩ := Registry.eq_of_addMethod hadd
    exact ⟨⟨fun _ => rfl, fun _ => rfl⟩, rfl⟩

theorem passes_methods (ms : List MethodItem) : Passes ds (methods ms) := by
  induction ms with
  | nil => exact .pure _
  | cons m ms ih => exact (passes_method m).bind fun _ => ih

end Register

end TypeFlow
