import TypeFlow.Proofs.Check.Contents

namespace TypeFlow

namespace Registry

variable {r r' : Registry}

theorem decls_addAlias {x : String} {t : Ty} (h : r.addAlias x t = some r') : r'.decls = r.decls := by
  obtain ⟨-, rfl⟩ := Registry.eq_of_addAlias h
  rfl

theorem decls_addConst {x : String} {info : ConstInfo} (h : r.addConst x info = some r') :
    r'.decls = r.decls := by
  obtain ⟨-, rfl⟩ := Registry.eq_of_addConst h
  rfl

theorem decls_addFunction {sig : Signature} (h : r.addFunction sig = some r') : r'.decls = r.decls := by
  obtain ⟨-, rfl⟩ := Registry.eq_of_addFunction h
  rfl

theorem decls_addMethod {m : MethodSig} (h : r.addMethod m = some r') : r'.decls = r.decls := by
  obtain ⟨-, rfl⟩ := Registry.eq_of_addMethod h
  rfl

theorem map_decls_modifyDecl {γ : Type} (view : DeclInfo → γ) {f : DeclInfo → DeclInfo}
    (h : ∀ info, view (f info) = view info) (r : Registry) (d : DeclId) :
    (r.modifyDecl d f).decls.map view = r.decls.map view := by
  refine List.ext_getElem? fun e => ?_
  rw [modifyDecl, List.getElem?_map, List.getElem?_map, List.getElem?_modify, Option.map_eq_map, Option.map_map]
  congr 1
  funext info
  simp only [Function.comp_apply]
  split
  · exact h info
  · rfl

theorem map_decls_noteImplementor {γ : Type} (view : DeclInfo → γ)
    (h : ∀ (info : DeclInfo) kind, view { info with kind } = view info) (r : Registry) (i d : DeclId) :
    (r.noteImplementor i d).decls.map view = r.decls.map view := by
  unfold noteImplementor
  split
  · rfl
  · refine map_decls_modifyDecl view (fun info => ?_) r i
    split
    · exact h info _
    · rfl

end Registry

namespace Register

variable {α β γ : Type} {f : Registry → γ}

def Leaves (f : Registry → γ) (x : Register α) : Prop := ∀ s, f (x.run s).2.registry = f s.registry

namespace Leaves

variable {x y : Register α} {g : α → Register β}

theorem pure (a : α) : Leaves f (Pure.pure a : Register α) := fun _ => rfl

theorem bind (hx : Leaves f x) (hg : ∀ a, Leaves f (g a)) : Leaves f (x >>= g) :=
  fun s => (hg _ _).trans (hx s)

theorem ite {q : Prop} [Decidable q] (hx : Leaves f x) (hy : Leaves f y) : Leaves f (if q then x else y) := by
  split
  · exact hx
  · exact hy

theorem ensures (h : Leaves id x) {P : Registry → Prop} :
    Ensures (fun s => P s.registry) x fun _ s => P s.registry :=
  fun s hs => (congrArg P (h s)).mpr hs

end Leaves

theorem leaves_report (span : Span) (cause : Cause) : Leaves f (report span cause) := fun _ => rfl

theorem leaves_get : Leaves f (get : Register Registration) := fun _ => rfl

theorem leaves_modifyRegistry {g : Registry → Registry} (h : ∀ r, f (g r) = f r) :
    Leaves f (modifyRegistry g) := fun s => h s.registry

theorem leaves_keep {add : Registry → Option Registry} (span : Span) (x : String)
    (h : ∀ r r', add r = some r' → f r' = f r) : Leaves f (do keep (add (← get).registry) span x) := by
  intro s
  show f ((keep (add s.registry) span x).run s).2.registry = _
  unfold keep
  split
  · next r hr => exact h _ r hr
  · rfl

theorem leaves_resolve (scope : Generics) (span : Span) (w : Written) : Leaves f (resolve scope span w) :=
  fun s => congrArg f (registry_resolve scope span w s)

theorem leaves_resolveBounds (scope : Generics) (span : Span) (ws : List Written) :
    Leaves f (resolveBounds scope span ws) := by
  induction ws with
  | nil => exact .pure _
  | cons w ws ih =>
    unfold resolveBounds
    refine (leaves_resolve scope span w).bind fun t => .ite ih (.ite (ih.bind fun _ => .pure _) ?_)
    exact (leaves_report _ _).bind fun _ => ih

theorem leaves_resolveGenericKind (scope : Generics) (span : Span) (kind : GenericItemKind) :
    Leaves f (resolveGenericKind scope span kind) := by
  unfold resolveGenericKind
  split
  · exact (leaves_resolveBounds _ _ _).bind fun _ => .pure _
  · exact (leaves_resolveBounds _ _ _).bind fun _ => (leaves_resolve _ _ _).bind fun _ => .pure _
  · exact (leaves_resolve _ _ _).bind fun _ => .pure _

theorem leaves_resolveGenericsFrom (scope : Generics) (i : Nat) (gs : List GenericItem) :
    Leaves f (resolveGenericsFrom scope i gs) := by
  induction gs generalizing i with
  | nil => exact .pure _
  | cons g gs ih => exact (leaves_resolveGenericKind _ _ _).bind fun _ => (ih _).bind fun _ => .pure _

theorem leaves_setGenerics (h : ∀ (r : Registry) d generics, f (r.modifyDecl d fun info => { info with generics }) = f r)
    (ids : List (Option DeclId)) (gss : List (List GenericItem)) : Leaves f (setGenerics ids gss) := by
  induction ids generalizing gss with
  | nil => exact .pure _
  | cons id ids ih =>
    cases gss with
    | nil => cases id <;> exact .pure _
    | cons gs gss =>
      cases id with
      | none => exact ih gss
      | some d =>
        refine (leaves_resolveGenericsFrom _ _ _).bind fun generics => ?_
        exact (leaves_modifyRegistry fun r => h r d generics).bind fun _ => ih gss

section Aliases

variable (h : ∀ (r r' : Registry) x t, r.addAlias x t = some r' → f r' = f r)

theorem leaves_freshAliases (pending as : List AliasItem) : Leaves f (freshAliases pending as) := by
  induction as generalizing pending with
  | nil => exact .pure _
  | cons a as ih =>
    unfold freshAliases
    exact leaves_get.bind fun s => .ite ((leaves_report _ _).bind fun _ => ih _) (ih _)

include h

theorem getD_addAlias (r : Registry) (x : String) (t : Ty) : f ((r.addAlias x t).getD r) = f r := by
  cases hr : r.addAlias x t with
  | none => rfl
  | some r' => exact h r r' x t hr

theorem leaves_aliasRound (as : List AliasItem) : Leaves f (aliasRound as) := by
  induction as with
  | nil => exact .pure _
  | cons a as ih =>
    intro s
    unfold aliasRound
    simp only [StateT.run_bind, StateT.run_get, pure_bind]
    split
    · exact (ih _).trans (getD_addAlias h _ _ _)
    · exact ih s

theorem leaves_failAlias (a : AliasItem) (e : ResolveError) : Leaves f (failAlias a e) :=
  (leaves_report _ _).bind fun _ => leaves_modifyRegistry fun r => getD_addAlias h r _ _

theorem leaves_failAliases (failed : List (AliasItem × ResolveError)) : Leaves f (failAliases failed) := by
  induction failed with
  | nil => exact .pure _
  | cons d failed ih => exact (leaves_failAlias h d.1 d.2).bind fun _ => ih

theorem leaves_retryable (failed : List (AliasItem × ResolveError)) : Leaves f (retryable failed) := by
  induction failed with
  | nil => exact .pure _
  | cons d failed ih =>
    obtain ⟨a, e⟩ := d
    cases e with
    | unknownType x => exact ih.bind fun _ => .pure _
    | genericArgCount | constArgExpected => exact (leaves_failAlias h a _).bind fun _ => ih

theorem leaves_aliasRounds (fuel : Nat) (pending : List AliasItem) : Leaves f (aliasRounds fuel pending) := by
  induction fuel generalizing pending with
  | zero => exact .pure _
  | succ fuel ih =>
    unfold aliasRounds
    refine (leaves_aliasRound h pending).bind fun failed => .ite (leaves_failAliases h failed) ?_
    exact (leaves_retryable h failed).bind fun pending => .ite (.pure _) (ih pending)

theorem leaves_aliases (as : List AliasItem) : Leaves f (aliases as) :=
  (leaves_freshAliases [] as).bind fun _ => leaves_aliasRounds h _ _

end Aliases

theorem leaves_const (h : ∀ (r r' : Registry) x info, r.addConst x info = some r' → f r' = f r) (c : ConstItem) :
    Leaves f (const c) := by
  unfold const
  extract_lets finish
  have hfinish (declared : Option Ty) : Leaves f (finish declared) := by
    intro s
    show f ((keep _ c.span c.name).run _).2.registry = _
    unfold keep
    split
    · next r hr => exact h _ r _ _ hr
    · rfl
  split
  · exact (leaves_resolve [] c.span _).bind fun t => hfinish (some t)
  · exact hfinish none

theorem leaves_consts (h : ∀ (r r' : Registry) x info, r.addConst x info = some r' → f r' = f r)
    (cs : List ConstItem) : Leaves f (consts cs) := by
  induction cs with
  | nil => exact .pure _
  | cons c cs ih => exact (leaves_const h c).bind fun _ => ih

theorem leaves_fields (scope : Generics) (done : List (String × Ty)) (fs : List FieldItem) :
    Leaves f (fields scope done fs) := by
  induction fs generalizing done with
  | nil => exact .pure _
  | cons item fs ih =>
    unfold fields
    refine .ite ((leaves_report _ _).bind fun _ => ih _) ?_
    exact (leaves_resolve scope item.span item.ty).bind fun t => ih _

theorem leaves_backing (span : Span) (w : Option Written) : Leaves f (backing span w) := by
  unfold backing
  split
  · exact .pure _
  · refine (leaves_resolve [] span _).bind fun t => ?_
    dsimp only
    split
    · exact .pure _
    · exact (leaves_report _ _).bind fun _ => .pure _

theorem leaves_variants (span : Span) (done vs : List String) : Leaves f (variants span done vs) := by
  induction vs generalizing done with
  | nil => exact .pure _
  | cons v vs ih => exact .ite ((leaves_report _ _).bind fun _ => ih _) (ih _)

section Kinds

variable (hkind : ∀ (r : Registry) d kind, f (r.modifyDecl d fun info => { info with kind }) = f r)
  (hnote : ∀ (r : Registry) i d, f (r.noteImplementor i d) = f r)

include hnote

theorem leaves_implementsList (d : DeclId) (scope : Generics) (span : Span) (ws : List Written) :
    Leaves f (implementsList d scope span ws) := by
  induction ws with
  | nil => exact .pure _
  | cons w ws ih =>
    unfold implementsList
    refine (leaves_resolve scope span w).bind fun t => ?_
    split
    · exact ih
    · next i args => exact (leaves_modifyRegistry fun r => hnote r i d).bind fun _ => ih.bind fun _ => .pure _
    · exact (leaves_report _ _).bind fun _ => ih

include hkind

theorem leaves_struct (d : DeclId) (item : StructItem) : Leaves f (struct d item) := by
  refine leaves_get.bind fun s => (leaves_fields _ _ _).bind fun fs => ?_
  exact (leaves_implementsList hnote _ _ _ _).bind fun is => leaves_modifyRegistry fun r => hkind r d _

theorem leaves_structs (ids : List (Option DeclId)) (items : List StructItem) : Leaves f (structs ids items) := by
  induction ids generalizing items with
  | nil => exact .pure _
  | cons id ids ih =>
    cases items with
    | nil => cases id <;> exact .pure _
    | cons item items =>
      cases id with
      | none => exact ih items
      | some d => exact (leaves_struct hkind hnote d item).bind fun _ => ih items

theorem leaves_enum (d : DeclId) (item : EnumItem) : Leaves f (enum d item) := by
  refine (leaves_backing _ _).bind fun b => (leaves_variants _ _ _).bind fun vs => ?_
  exact (leaves_implementsList hnote _ _ _ _).bind fun is => leaves_modifyRegistry fun r => hkind r d _

theorem leaves_enums (ids : List (Option DeclId)) (items : List EnumItem) : Leaves f (enums ids items) := by
  induction ids generalizing items with
  | nil => exact .pure _
  | cons id ids ih =>
    cases items with
    | nil => cases id <;> exact .pure _
    | cons item items =>
      cases id with
      | none => exact ih items
      | some d => exact (leaves_enum hkind hnote d item).bind fun _ => ih items

end Kinds

theorem leaves_params (scope : Generics) (items : List ParamItem) : Leaves f (params scope items) := by
  induction items with
  | nil => exact .pure _
  | cons item items ih => exact (leaves_resolve _ _ _).bind fun t => ih.bind fun ts => .pure _

theorem leaves_returnType (scope : Generics) (span : Span) (w : Option Written) :
    Leaves f (returnType scope span w) := by
  unfold returnType
  split
  · exact .pure _
  · exact leaves_resolve _ _ _

theorem leaves_function (h : ∀ (r r' : Registry) sig, r.addFunction sig = some r' → f r' = f r)
    (item : FunctionItem) : Leaves f (function item) := by
  refine (leaves_resolveGenericsFrom _ _ _).bind fun gs => (leaves_params _ _).bind fun ps => ?_
  exact (leaves_returnType _ _ _).bind fun t => leaves_keep _ _ fun r r' => h r r' _

theorem leaves_functions (h : ∀ (r r' : Registry) sig, r.addFunction sig = some r' → f r' = f r)
    (items : List FunctionItem) : Leaves f (functions items) := by
  induction items with
  | nil => exact .pure _
  | cons item items ih => exact (leaves_function h item).bind fun _ => ih

theorem leaves_method (h : ∀ (r r' : Registry) m, r.addMethod m = some r' → f r' = f r)
    (item : MethodItem) : Leaves f (method item) := by
  unfold method
  refine leaves_get.bind fun s => ?_
  split
  · exact leaves_report _ _
  · refine leaves_get.bind fun s => (leaves_params _ _).bind fun ps => ?_
    exact (leaves_returnType _ _ _).bind fun t => leaves_keep _ _ fun r r' => h r r' _

theorem leaves_methods (h : ∀ (r r' : Registry) m, r.addMethod m = some r' → f r' = f r)
    (items : List MethodItem) : Leaves f (methods items) := by
  induction items with
  | nil => exact .pure _
  | cons item items ih => exact (leaves_method h item).bind fun _ => ih

end Register

end TypeFlow
