import TypeFlow.Proofs.Check.Declarations

namespace TypeFlow

namespace Registry

variable {p : Prop} {o : Outline} {r : Registry}

theorem exists_interface (h : r.Sound p o) {i : DeclId} {s : DeclShape} (hs : o[i]? = some s)
    (hform : s.form = .interface) :
    ∃ info b ds, r.decl? i = some info ∧ info.kind = .interface b ds := by
  rw [← h.outline, outline, List.getElem?_map] at hs
  obtain ⟨info, hinfo, rfl⟩ := Option.map_eq_some_iff.mp hs
  cases hk : info.kind with
  | interface b ds => exact ⟨info, b, ds, hinfo, hk⟩
  | struct | enum => simp [DeclInfo.shape, DeclKind.form, hk] at hform

theorem implementors_eq {i : DeclId} {info : DeclInfo} {b : Bool} {ds : List DeclId}
    (hi : r.decl? i = some info) (hk : info.kind = .interface b ds) : r.implementors i = some ds := by
  simp [implementors, kind?, hi, hk]

def noteImplementor (r : Registry) (i d : DeclId) : Registry :=
  if ((r.implementors i).getD []).contains d then r else r.addImplementor i d

theorem Listed.noteImplementor {d e i : DeclId} {t : Ty} (h : r.Listed e t) :
    (r.noteImplementor i d).Listed e t := by
  unfold Registry.noteImplementor
  split
  · exact h
  · refine h.modifyDecl fun info _ b ds hk => ?_
    simp only [hk]
    exact ⟨_, rfl, fun e he => List.mem_append_left _ he⟩

theorem Sound.noteImplementor (h : r.Sound p o) {d : DeclId} (i : DeclId)
    (hd : ∃ s, o[d]? = some s ∧ s.form ≠ .interface) : (r.noteImplementor i d).Sound p o := by
  unfold Registry.noteImplementor
  split
  · exact h
  · refine h.modifyDecl fun info hinfo => ?_
    have hs := sound_of_decl? h hinfo
    split
    · next b ds hk =>
      refine ⟨?_, ⟨hs.generic, ?_, List.forall_mem_nil _, ?_⟩, List.forall_mem_nil _, ?_⟩
      · simp [DeclInfo.shape, DeclKind.form, hk]
      · rintro _ _ ⟨⟩
      · rintro _ _ ⟨⟩ e he
        rcases List.mem_append.mp he with he | he
        · exact hs.implementor hk e he
        · exact List.mem_singleton.mp he ▸ hd
      · intro b' ds' hk'
        cases hk.symm.trans hk'
        exact ⟨_, rfl, fun e he => List.mem_append_left _ he⟩
    · next hk =>
      exact ⟨rfl, hs, fun t ht => .inl ht, fun b ds hk' => absurd hk' (hk b ds)⟩

theorem listed_noteImplementor (h : r.Sound p o) {d i : DeclId} {args ps : List Ty}
    (ht : o.Typed p ps (.interface i args)) : (r.noteImplementor i d).Listed d (.interface i args) := by
  obtain ⟨⟨s, hs, hform, -⟩, -⟩ := ht.node
  obtain ⟨info, b, ds, hi, hk⟩ := exists_interface h hs hform
  have hds := implementors_eq hi hk
  unfold noteImplementor
  split
  · next hmem => exact ⟨i, args, ds, rfl, hds, by simpa [hds] using hmem⟩
  · refine ⟨i, args, ds ++ [d], rfl, ?_, by simp⟩
    simp [implementors, addImplementor, kind?_modifyDecl, hi, hk]

end Registry

namespace Register

variable {α β : Type} {I : Registration → Prop} {good : Ty → Prop} {p : Prop} {o : Outline} {ps : List Ty}

theorem preserves_fields (hI : Unread I) {scope : Generics} {fs : List FieldItem} {done : List (String × Ty)}
    (h : ∀ f ∈ fs, Preserves I good (resolve scope f.span f.ty)) (hdone : ∀ e ∈ done, good e.2) :
    Preserves I (fun es => ∀ e ∈ es, good e.2) (fields scope done fs) := by
  induction fs generalizing done with
  | nil => exact .pure hdone
  | cons f fs ih =>
    obtain ⟨hf, hfs⟩ := List.forall_mem_cons.mp h
    unfold fields
    refine .ite ((preserves_report hI _ _).bind fun _ _ => ih hfs hdone) ?_
    exact hf.bind fun t ht => ih hfs (List.forall_mem_append.mpr ⟨hdone, List.forall_mem_singleton.mpr ht⟩)

theorem registry_resolve (scope : Generics) (span : Span) (w : Written) (s : Registration) :
    ((resolve scope span w).run s).2.registry = s.registry := by
  unfold resolve
  simp only [StateT.run_bind, StateT.run_get, pure_bind]
  split <;> rfl

def Noted (p : Prop) (o : Outline) (ps : List Ty) (d : DeclId) (ts : List Ty) (s : Registration) : Prop :=
  s.Sound p o ∧ ∀ t ∈ ts, s.registry.Listed d t ∧ o.Typed p ps t

theorem ensures_implementsList {d : DeclId} (hd : ∃ s, o[d]? = some s ∧ s.form ≠ .interface)
    (scope : Generics) (span : Span) (ws : List Written) (done : List Ty) :
    Ensures (Noted p o scope.tys d done) (implementsList d scope span ws) fun ts =>
      Noted p o scope.tys d (done ++ ts) := by
  induction ws generalizing done with
  | nil => exact .pure fun s hs => by rwa [List.append_nil]
  | cons w ws ih =>
    have hresolve : Ensures (Noted p o scope.tys d done) (resolve scope span w)
        fun t s => Noted p o scope.tys d done s ∧ o.Typed p scope.tys t := by
      rintro s ⟨hs, hdone⟩
      obtain ⟨hs', ht⟩ := preserves_resolve scope span w s hs
      rw [← registry_resolve scope span w s] at hdone
      exact ⟨⟨hs', hdone⟩, ht⟩
    unfold implementsList
    refine hresolve.bind fun t s hs => ?_
    obtain ⟨⟨hs, hdone⟩, ht⟩ := hs
    split
    · exact ih done s ⟨hs, hdone⟩
    · next i args =>
      have hnote : Ensures (· = s) (modifyRegistry fun r => r.noteImplementor i d)
          fun _ => Noted p o scope.tys d (done ++ [.interface i args]) := by
        rintro _ rfl
        refine ⟨⟨hs.registry.noteImplementor i hd, hs.const⟩, List.forall_mem_append.mpr ⟨?_, ?_⟩⟩
        · exact fun t ht => ⟨(hdone t ht).1.noteImplementor, (hdone t ht).2⟩
        · exact List.forall_mem_singleton.mpr ⟨Registry.listed_noteImplementor hs.registry ht, ht⟩
      have hcons (ts : List Ty) : Ensures (Noted p o scope.tys d (done ++ [.interface i args] ++ ts))
          (Pure.pure (.interface i args :: ts)) fun ts => Noted p o scope.tys d (done ++ ts) :=
        .pure fun u hu => by rwa [List.append_assoc] at hu
      exact (hnote.bind fun _ => (ih _).bind hcons) s rfl
    · exact ih done _ ⟨⟨hs.registry, hs.const⟩, hdone⟩

theorem preserves_setKind {id : DeclId} {s : DeclShape} {kind : DeclKind} {is : List Ty}
    (hid : o[id]? = some s) (hform : s.form = kind.form) (hnot : kind.form ≠ .interface)
    (hfield : ∀ {fs is}, kind = .struct fs is → ∀ e ∈ fs, o.Typed p s.params e.2)
    (himpl : ∀ info : DeclInfo, DeclInfo.implements { info with kind } = is) :
    Ensures (Noted p o s.params id is) (modifyRegistry fun r => r.modifyDecl id fun d => { d with kind })
      fun _ s => s.Sound p o ∧ True := by
  rintro u ⟨hu, his⟩
  refine ⟨⟨hu.registry.modifyDecl fun info hinfo => ?_, hu.const⟩, True.intro⟩
  have hs := Registry.sound_of_decl? hu.registry hinfo
  have hshape : info.shape = s :=
    Option.some.inj ((Registry.shape_of_decl? hu.registry hinfo).symm.trans hid)
  have hkind : info.kind.form = kind.form := by rw [← hform, ← hshape]; rfl
  have htys : info.generics.tys = s.params := congrArg DeclShape.params hshape
  refine ⟨?_, ⟨hs.generic, ?_, ?_, ?_⟩, ?_, ?_⟩
  · exact congrArg (DeclShape.mk · info.generics.tys) hkind.symm
  · show ∀ {fs is}, kind = .struct fs is → ∀ e ∈ fs, o.Typed p info.generics.tys e.2
    rw [htys]
    exact hfield
  · rw [himpl]
    show ∀ t ∈ is, o.Typed p info.generics.tys t
    rw [htys]
    exact fun t ht => (his t ht).2
  · intro b ds hk
    simp [show kind = .interface b ds from hk, DeclKind.form] at hnot
  · rw [himpl]
    exact fun t ht => .inr (his t ht).1
  · intro b ds hk
    rw [← hkind, hk] at hnot
    exact absurd rfl hnot

theorem ensures_implements {id : DeclId} {s : DeclShape} (hid : o[id]? = some s)
    (hform : s.form ≠ .interface) (scope : Generics) (span : Span) (ws : List Written) :
    Ensures (·.Sound p o) (implementsList id scope span ws) (Noted p o scope.tys id) :=
  fun u hu => ensures_implementsList ⟨s, hid, hform⟩ scope span ws [] u ⟨hu, List.forall_mem_nil _⟩

theorem preserves_struct {id : DeclId} {s : DeclShape} (item : StructItem) (hid : o[id]? = some s)
    (hform : s.form = .struct) : Preserves (·.Sound p o) (fun _ => True) (struct id item) := by
  unfold struct
  refine preserves_get.bind fun u hu => ?_
  have htys := Registry.tys_generics hu.registry hid
  refine Preserves.bind (preserves_fields unread_sound (fun f _ => preserves_resolve _ f.span f.ty) (List.forall_mem_nil _))
    fun fs hfs => ?_
  refine (ensures_implements hid (by simp [hform]) _ _ _).bind fun is => ?_
  rw [htys] at hfs ⊢
  exact preserves_setKind hid hform nofun (by rintro _ _ ⟨⟩; exact hfs) fun _ => rfl

theorem preserves_backing (hI : Unread I) {span : Span} {w : Option Written} (hi32 : good (.prim .i32))
    (h : ∀ v, w = some v → Preserves I good (resolve [] span v)) : Preserves I good (backing span w) := by
  unfold backing
  split
  · exact .pure hi32
  · refine (h _ rfl).bind fun t ht => ?_
    dsimp only
    split
    · exact .pure ht
    · exact (preserves_report hI _ _).bind fun _ _ => .pure ht

theorem preserves_variants (hI : Unread I) (span : Span) (done vs : List String) :
    Preserves I (fun _ => True) (variants span done vs) := by
  induction vs generalizing done with
  | nil => exact .pure True.intro
  | cons v vs ih => exact .ite ((preserves_report hI _ _).bind fun _ _ => ih done) (ih _)

theorem preserves_enum {id : DeclId} {s : DeclShape} (item : EnumItem) (hid : o[id]? = some s)
    (hform : s.form = .enum) : Preserves (·.Sound p o) (fun _ => True) (enum id item) := by
  have hbacking : Preserves (·.Sound p o) (o.Typed p []) (backing item.span item.backing) :=
    preserves_backing unread_sound (Outline.closed_typed.leaf rfl rfl) fun v _ => preserves_resolve [] item.span v
  refine hbacking.bind fun b _ => (preserves_variants unread_sound _ _ _).bind fun vs _ => ?_
  have hlist : Ensures (·.Sound p o) (implementsList id [] item.span item.implements)
      (Noted p o s.params id) := by
    intro u hu
    rw [hu.registry.enums s (List.mem_of_getElem? hid) hform]
    exact ensures_implements hid (by simp [hform]) [] _ _ u hu
  exact hlist.bind fun is => preserves_setKind hid hform nofun nofun fun _ => rfl

theorem walks_structs : Walks struct structs where
  done _ := rfl
  short ids := by cases ids with
    | nil => rfl
    | cons id ids => cases id <;> rfl
  skip _ _ _ := rfl
  step _ _ _ _ := rfl

theorem walks_enums : Walks enum enums where
  done _ := rfl
  short ids := by cases ids with
    | nil => rfl
    | cons id ids => cases id <;> rfl
  skip _ _ _ := rfl
  step _ _ _ _ := rfl

theorem preserves_structs {ids : List (Option DeclId)} {items : List StructItem} {gs : StructItem → List GenericItem}
    (h : Declared o .struct gs ids items) : Preserves (·.Sound p o) (fun _ => True) (structs ids items) :=
  preserves_walk walks_structs fun e he d hd => preserves_struct e.2 (h e he d hd) rfl

theorem preserves_enums {ids : List (Option DeclId)} {items : List EnumItem} {gs : EnumItem → List GenericItem}
    (h : Declared o .enum gs ids items) : Preserves (·.Sound p o) (fun _ => True) (enums ids items) :=
  preserves_walk walks_enums fun e he d hd => preserves_enum e.2 (h e he d hd) rfl

theorem preserves_params {scope : Generics} {items : List ParamItem}
    (h : ∀ q ∈ items, Preserves I good (resolve scope q.span q.ty)) :
    Preserves I (fun ps => ∀ q ∈ ps, good q.ty) (params scope items) := by
  induction items with
  | nil => exact .pure nofun
  | cons q qs ih =>
    obtain ⟨hq, hqs⟩ := List.forall_mem_cons.mp h
    unfold params
    exact hq.bind fun t ht => (ih hqs).bind fun ps hps => .pure (List.forall_mem_cons.mpr ⟨ht, hps⟩)

theorem preserves_returnType {scope : Generics} {span : Span} {w : Option Written} (hunit : good .unit)
    (h : ∀ v, w = some v → Preserves I good (resolve scope span v)) : Preserves I good (returnType scope span w) := by
  unfold returnType
  split
  · exact .pure hunit
  · exact h _ rfl

theorem preserves_sound_params (scope : Generics) (items : List ParamItem) :
    Preserves (·.Sound p o) (fun ps => ∀ q ∈ ps, o.Typed p scope.tys q.ty) (params scope items) :=
  preserves_params fun q _ => preserves_resolve scope q.span q.ty

theorem preserves_sound_returnType (scope : Generics) (span : Span) (w : Option Written) :
    Preserves (·.Sound p o) (o.Typed p scope.tys) (returnType scope span w) :=
  preserves_returnType (Outline.closed_typed.leaf rfl rfl) fun v _ => preserves_resolve scope span v

theorem sound_addFunction {r r' : Registry} {sig : Signature} (h : r.Sound p o)
    (hsig : sig.All (o.Typed p sig.generics.tys) ∧ sig.generics.Sound p o) (k : r.addFunction sig = some r') :
    r'.Sound p o := by
  obtain ⟨-, rfl⟩ := Registry.eq_of_addFunction k
  refine ⟨h.outline, h.enums, h.decl, h.listed, h.aliased, ?_, h.method, h.constant⟩
  exact List.forall_mem_append.mpr ⟨h.function, List.forall_mem_singleton.mpr hsig⟩

theorem sound_addMethod {r r' : Registry} {m : MethodSig} (h : r.Sound p o)
    (hsig : ∀ s, o[m.receiver]? = some s → m.sig.All (o.Typed p s.params)) (k : r.addMethod m = some r') :
    r'.Sound p o := by
  obtain ⟨-, rfl⟩ := Registry.eq_of_addMethod k
  refine ⟨h.outline, h.enums, h.decl, h.listed, h.aliased, h.function, ?_, h.constant⟩
  exact List.forall_mem_append.mpr ⟨h.method, List.forall_mem_singleton.mpr hsig⟩

theorem preserves_function (f : FunctionItem) (hf : p → GenericItem.InOrder f.generics) :
    Preserves (·.Sound p o) (fun _ => True) (function f) := by
  unfold function
  refine (preserves_sound_resolveGenerics hf).bind fun gs hgs => ?_
  refine (preserves_sound_params gs f.params).bind fun ps hps => ?_
  refine (preserves_sound_returnType gs f.span f.ret).bind fun t ht => preserves_get.bind fun s hs => ?_
  refine preserves_keep unread_sound _ _ fun r hr u hu => ⟨?_, hu.const⟩
  exact sound_addFunction hs.registry ⟨⟨hps, ht⟩, hgs.2⟩ hr

theorem preserves_method (m : MethodItem) : Preserves (·.Sound p o) (fun _ => True) (method m) := by
  unfold method
  refine preserves_get.bind fun _ _ => ?_
  split
  · exact preserves_report unread_sound _ _
  · refine preserves_get.bind fun u hu => (preserves_sound_params _ m.params).bind fun ps hps => ?_
    refine (preserves_sound_returnType _ m.span m.ret).bind fun t ht => preserves_get.bind fun s hs => ?_
    refine preserves_keep unread_sound _ _ fun r hr v hv => ⟨?_, hv.const⟩
    refine sound_addMethod hs.registry (fun shape hshape => ?_) hr
    rw [Registry.tys_generics hu.registry hshape] at hps ht
    exact ⟨hps, ht⟩

theorem preserves_functions {fs : List FunctionItem} (h : ∀ f ∈ fs, Preserves I (fun _ => True) (function f)) :
    Preserves I (fun _ => True) (functions fs) := by
  induction fs with
  | nil => exact .pure True.intro
  | cons f fs ih =>
    obtain ⟨hf, hfs⟩ := List.forall_mem_cons.mp h
    exact hf.bind fun _ _ => ih hfs

theorem preserves_methods {ms : List MethodItem} (h : ∀ m ∈ ms, Preserves I (fun _ => True) (method m)) :
    Preserves I (fun _ => True) (methods ms) := by
  induction ms with
  | nil => exact .pure True.intro
  | cons m ms ih =>
    obtain ⟨hm, hms⟩ := List.forall_mem_cons.mp h
    exact hm.bind fun _ _ => ih hms

end Register

end TypeFlow
