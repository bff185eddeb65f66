import TypeFlow.Proofs.Check.Contents

namespace TypeFlow

structure Registration.Blank (s : Registration) : Prop where
  decl : ∀ d ∈ s.registry.decls, (∀ p o, d.Sound p o) ∧ d.implements = []
  enums : ∀ d ∈ s.registry.decls, d.shape.form = .enum → d.shape.params = []
  aliased : ∀ e ∈ s.registry.types, ∀ t, e.2 ≠ .alias t
  functions : s.registry.functions = []
  methods : s.registry.methods = []
  constants : s.registry.consts = []
  consts : s.consts = []

theorem Registration.Blank.sound {s : Registration} (h : s.Blank) (p : Prop) :
    s.Sound p s.registry.outline where
  registry := {
    outline := rfl
    enums := by
      intro shape hshape
      obtain ⟨d, hd, rfl⟩ := List.mem_map.mp hshape
      exact h.enums d hd
    decl := fun d hd => (h.decl d hd).1 _ _
    listed := by
      intro d info t hd ht
      rw [(h.decl info (List.mem_of_getElem? hd)).2] at ht
      cases ht
    aliased := fun e he t ht => absurd ht (h.aliased e he t)
    function := by simp [h.functions]
    method := by simp [h.methods]
    constant := by simp [h.constants] }
  const := by simp [h.consts]

def DeclKind.IsBlank : DeclKind → Prop
  | .struct fs is => fs = [] ∧ is = []
  | .enum _ _ is => is = []
  | .interface _ ds => ds = []

theorem DeclInfo.implements_of_isBlank {d : DeclInfo} (h : d.kind.IsBlank) : d.implements = [] := by
  unfold DeclInfo.implements
  split
  · next hk =>
    rw [hk] at h
    exact h.2
  · next hk =>
    rw [hk] at h
    exact h
  · rfl

theorem DeclInfo.sound_of_isBlank {d : DeclInfo} (h : d.kind.IsBlank) {p : Prop} {o : Outline}
    (hg : d.generics.Sound p o) : d.Sound p o where
  generic := hg
  field hk := by
    rw [hk] at h
    simp [h.1]
  listed := by
    rw [implements_of_isBlank h]
    exact List.forall_mem_nil _
  implementor hk := by
    rw [hk] at h
    cases h
    exact List.forall_mem_nil _

namespace Register

def Past (o : Outline) (s : Registration) : Prop := s.Blank ∧ o <+: s.registry.outline

theorem blank_addDecl {s : Registration} {info : DeclInfo} {id : DeclId} {r : Registry} (h : s.Blank)
    (k : s.registry.addDecl info = some (id, r)) (hi : (∀ p o, info.Sound p o) ∧ info.implements = [])
    (he : info.shape.form = .enum → info.shape.params = []) : { s with registry := r }.Blank := by
  obtain ⟨-, rfl, rfl⟩ := Registry.eq_of_addDecl k
  refine ⟨?_, ?_, ?_, h.functions, h.methods, h.constants, h.consts⟩
  · exact List.forall_mem_append.mpr ⟨h.decl, List.forall_mem_singleton.mpr hi⟩
  · exact List.forall_mem_append.mpr ⟨h.enums, List.forall_mem_singleton.mpr he⟩
  · exact List.forall_mem_append.mpr ⟨h.aliased, List.forall_mem_singleton.mpr nofun⟩

theorem outline_addDecl {r r' : Registry} (info : DeclInfo) {id : DeclId}
    (k : r.addDecl info = some (id, r')) :
    r'.outline = r.outline ++ [info.shape] ∧ id = r.outline.length := by
  obtain ⟨-, rfl, rfl⟩ := Registry.eq_of_addDecl k
  simp [Registry.outline]

theorem ensures_declare (o : Outline) (x : String) (span : Span) (gs : List GenericItem)
    {kind : DeclKind} (hkind : kind.IsBlank) (henum : kind.form = .enum → gs = []) :
    Ensures (Past o) (declare x span gs kind) fun id s =>
      Past o s ∧ ∀ d, id = some d → s.registry.outline[d]? = some ⟨kind.form, (placeholders 0 gs).tys⟩ := by
  rintro s ⟨hs, ho⟩
  let info : DeclInfo := ⟨x, placeholders 0 gs, kind, span⟩
  have hinfo : (∀ p o, info.Sound p o) ∧ info.implements = [] :=
    ⟨fun p o => info.sound_of_isBlank hkind (sound_placeholders gs), info.implements_of_isBlank hkind⟩
  have hempty : info.shape.form = .enum → info.shape.params = [] := fun h => by
    show (placeholders 0 gs).tys = []
    rw [henum h]
    rfl
  unfold declare
  simp only [StateT.run_bind, StateT.run_get, pure_bind]
  split
  · next id r hadd =>
    obtain ⟨houtline, hid⟩ := outline_addDecl info hadd
    refine ⟨⟨blank_addDecl hs hadd hinfo hempty, ?_⟩, ?_⟩
    · show o <+: r.outline
      rw [houtline]
      exact ho.trans (List.prefix_append _ _)
    · intro d hd
      have heq : id = d := Option.some.inj hd
      show r.outline[d]? = _
      simp [houtline, ← heq, hid, info, DeclInfo.shape]
  · refine ⟨⟨⟨hs.decl, hs.enums, hs.aliased, hs.functions, hs.methods, hs.constants, hs.consts⟩, ho⟩, ?_⟩
    intro d hd
    have hnone : (none : Option DeclId) = some d := hd
    cases hnone

theorem Declared.mono {γ : Type} {o o' : Outline} {f : DeclForm} {gs : γ → List GenericItem}
    {ids : List (Option DeclId)} {items : List γ} (h : Declared o f gs ids items) (ho : o <+: o') :
    Declared o' f gs ids items := fun e he d hd => getElem?_of_isPrefix ho (h e he d hd)

def Declares {γ : Type} (f : DeclForm) (gs : γ → List GenericItem) (items : List γ)
    (x : Register (List (Option DeclId))) : Prop :=
  ∀ o, Ensures (Past o) x fun ids s => Past o s ∧ Declared s.registry.outline f gs ids items

theorem declares_cons {γ : Type} {f : DeclForm} {gs : γ → List GenericItem} {item : γ} {items : List γ}
    {x : Register (Option DeclId)} {xs : Register (List (Option DeclId))}
    (hx : ∀ o, Ensures (Past o) x fun id s =>
      Past o s ∧ ∀ d, id = some d → s.registry.outline[d]? = some ⟨f, (placeholders 0 (gs item)).tys⟩)
    (hxs : Declares f gs items xs) :
    Declares f gs (item :: items) (do
      let id ← x
      return id :: (← xs)) := by
  intro o s hs
  obtain ⟨⟨hblank, ho⟩, hid⟩ := hx o s hs
  obtain ⟨⟨hblank', ho'⟩, hids⟩ := hxs _ (x.run s).2 ⟨hblank, List.prefix_refl _⟩
  refine ⟨⟨hblank', ho.trans ho'⟩, List.forall_mem_cons.mpr ⟨?_, hids⟩⟩
  exact fun d hd => getElem?_of_isPrefix ho' (hid d hd)

theorem declares_structs (items : List StructItem) :
    Declares .struct (·.generics) items (declareStructs items) := by
  induction items with
  | nil => exact fun o s hs => ⟨hs, nofun⟩
  | cons s ss ih => exact declares_cons (fun o => ensures_declare o _ _ _ ⟨rfl, rfl⟩ nofun) ih

theorem declares_enums (items : List EnumItem) :
    Declares .enum (fun _ => []) items (declareEnums items) := by
  induction items with
  | nil => exact fun o s hs => ⟨hs, nofun⟩
  | cons e es ih => exact declares_cons (fun o => ensures_declare o _ _ [] rfl fun _ => rfl) ih

theorem declares_interfaces (items : List InterfaceItem) :
    Declares .interface (·.generics) items (declareInterfaces items) := by
  induction items with
  | nil => exact fun o s hs => ⟨hs, nofun⟩
  | cons i is ih => exact declares_cons (fun o => ensures_declare o _ _ _ rfl nofun) ih

theorem declared_generics {γ : Type} {o : Outline} {f : DeclForm} {gs : γ → List GenericItem}
    {ids : List (Option DeclId)} {items : List γ} (h : Declared o f gs ids items) :
    Declared o f id ids (items.map gs) := by
  unfold Declared
  rw [List.zip_map_right]
  exact List.forall_mem_map.mpr h

end Register

def Module.begun (m : Module) : Registration :=
  ((Register.declareInterfaces m.interfaces).run ((Register.declareEnums m.enums).run
    ((Register.declareStructs m.structs).run {}).2).2).2

namespace Register

theorem preserves_contents (m : Module) {o : Outline} {structIds enumIds interfaceIds : List (Option DeclId)}
    (hs : Declared o .struct (·.generics) structIds m.structs)
    (he : Declared o .enum (fun _ => []) enumIds m.enums)
    (hi : Declared o .interface (·.generics) interfaceIds m.interfaces) :
    Preserves (·.Sound m.InOrder o) (fun _ => True) (do
      aliases m.aliases
      setGenerics structIds (m.structs.map (·.generics))
      setGenerics interfaceIds (m.interfaces.map (·.generics))
      consts m.consts
      structs structIds m.structs
      enums enumIds m.enums
      functions m.functions
      methods m.methods) := by
  have hlists : m.InOrder → (∀ gs ∈ m.structs.map (·.generics), GenericItem.InOrder gs) ∧
      (∀ gs ∈ m.interfaces.map (·.generics), GenericItem.InOrder gs) ∧
      ∀ f ∈ m.functions, GenericItem.InOrder f.generics := by
    intro hm
    obtain ⟨hdecls, hfunctions⟩ := List.forall_mem_append.mp hm
    obtain ⟨hstructs, hinterfaces⟩ := List.forall_mem_append.mp hdecls
    exact ⟨hstructs, hinterfaces, List.forall_mem_map.mp hfunctions⟩
  refine (preserves_sound_aliases _).bind fun _ _ => ?_
  refine (preserves_setGenerics (fun hm => (hlists hm).1) (declared_generics hs)).bind fun _ _ => ?_
  refine (preserves_setGenerics (fun hm => (hlists hm).2.1) (declared_generics hi)).bind fun _ _ => ?_
  refine (preserves_consts _).bind fun _ _ => (preserves_structs hs).bind fun _ _ => ?_
  refine (preserves_enums he).bind fun _ _ => (preserves_functions fun f hf => ?_).bind fun _ _ => ?_
  · exact preserves_function f fun hm => (hlists hm).2.2 f hf
  · exact preserves_methods fun item _ => preserves_method item

theorem blank_initial : Registration.Blank {} :=
  ⟨nofun, nofun, nofun, rfl, rfl, rfl, rfl⟩

theorem sound_begun (m : Module) :
    ((declarations m).run {}).2.Sound m.InOrder m.begun.registry.outline := by
  let s₁ := ((declareStructs m.structs).run {}).2
  let s₂ := ((declareEnums m.enums).run s₁).2
  obtain ⟨⟨hblank₁, -⟩, hs⟩ := declares_structs m.structs [] {} ⟨blank_initial, List.nil_prefix⟩
  obtain ⟨⟨hblank₂, h₁₂⟩, he⟩ := declares_enums m.enums _ s₁ ⟨hblank₁, List.prefix_refl _⟩
  obtain ⟨⟨hblank₃, h₂₃⟩, hi⟩ := declares_interfaces m.interfaces _ s₂ ⟨hblank₂, List.prefix_refl _⟩
  exact (preserves_contents m (hs.mono (h₁₂.trans h₂₃)) (he.mono h₂₃) hi m.begun (hblank₃.sound _)).1

theorem sound_declarations (m : Module) : ∃ o, ((declarations m).run {}).2.Sound m.InOrder o :=
  ⟨_, sound_begun m⟩

end Register

end TypeFlow
