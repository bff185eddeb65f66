import TypeFlow.Proofs.Check.Settling

namespace TypeFlow

def StructItem.heading (s : StructItem) : DeclInfo := ⟨s.name, placeholders 0 s.generics, .struct [] [], s.span⟩

def EnumItem.heading (e : EnumItem) : DeclInfo := ⟨e.name, [], .enum (.prim .i32) [] [], e.span⟩

def InterfaceItem.heading (i : InterfaceItem) : DeclInfo :=
  ⟨i.name, placeholders 0 i.generics, .interface i.isSealed [], i.span⟩

namespace Module

def headings (m : Module) : List DeclInfo :=
  m.structs.map (·.heading) ++ m.enums.map (·.heading) ++ m.interfaces.map (·.heading)

def typeNames (m : Module) : List String :=
  m.structs.map (·.name) ++ m.enums.map (·.name) ++ m.interfaces.map (·.name) ++ m.aliases.map (·.name)

def structIds (m : Module) : List (Option DeclId) := (List.range' 0 m.structs.length).map some

def enumIds (m : Module) : List (Option DeclId) := (List.range' m.structs.length m.enums.length).map some

def interfaceIds (m : Module) : List (Option DeclId) :=
  (List.range' (m.structs.length + m.enums.length) m.interfaces.length).map some

def declLists (m : Module) : List (DeclId × List GenericItem) :=
  (List.range' 0 m.structs.length).zip (m.structs.map (·.generics)) ++
    (List.range' (m.structs.length + m.enums.length) m.interfaces.length).zip (m.interfaces.map (·.generics))

end Module

def Registry.declare (r : Registry) (infos : List DeclInfo) : Registry :=
  { r with
    decls := r.decls ++ infos
    types := r.types ++ (infos.zipIdx r.decls.length).map fun e => (e.1.name, .decl e.2) }

def Registration.declare (s : Registration) (infos : List DeclInfo) : Registration :=
  { s with registry := s.registry.declare infos }

namespace Registry

theorem declare_nil (r : Registry) : r.declare [] = r := by
  simp [declare]

theorem declare_append (r : Registry) (is js : List DeclInfo) :
    r.declare (is ++ js) = (r.declare is).declare js := by
  simp [declare, List.zipIdx_append]

theorem names_declare (r : Registry) (infos : List DeclInfo) :
    (r.declare infos).types.map (·.1) = r.types.map (·.1) ++ infos.map (·.name) := by
  have hnames (n : Nat) : (infos.zipIdx n).map (fun e => e.1.name) = infos.map (·.name) :=
    calc (infos.zipIdx n).map (fun e => e.1.name)
        = ((infos.zipIdx n).map (·.1)).map (·.name) := List.map_map.symm
      _ = infos.map (·.name) := by rw [List.zipIdx_map_fst]
  simp [declare, Function.comp_def, hnames]

end Registry

namespace Register

def Heads (infos : List DeclInfo) (x : Register (List (Option DeclId))) : Prop :=
  ∀ s : Registration, (s.registry.types.map (·.1) ++ infos.map (·.name)).Nodup →
    x.run s = ((List.range' s.registry.decls.length infos.length).map some, s.declare infos)

theorem run_declare {x : String} {span : Span} {gs : List GenericItem} {kind : DeclKind} {s : Registration}
    (h : s.registry.typeDef x = none) : (declare x span gs kind).run s =
      (some s.registry.decls.length, s.declare [⟨x, placeholders 0 gs, kind, span⟩]) := by
  unfold declare
  simp only [StateT.run_bind, StateT.run_get, pure_bind]
  rw [Registry.addDecl, h]
  rfl

theorem heads_cons {x : String} {span : Span} {gs : List GenericItem} {kind : DeclKind}
    {infos : List DeclInfo} {y : Register (List (Option DeclId))} (hy : Heads infos y) :
    Heads (⟨x, placeholders 0 gs, kind, span⟩ :: infos) (do
      let id ← declare x span gs kind
      return id :: (← y)) := by
  intro s hs
  let info : DeclInfo := ⟨x, placeholders 0 gs, kind, span⟩
  have hfree : s.registry.typeDef x = none := by
    refine Registry.typeDef_eq_none fun hmem => ?_
    exact (List.nodup_append.mp hs).2.2 x hmem x List.mem_cons_self rfl
  have hrest : ((s.declare [info]).registry.types.map (·.1) ++ infos.map (·.name)).Nodup := by
    show ((s.registry.declare [info]).types.map (·.1) ++ _).Nodup
    rw [Registry.names_declare, List.append_assoc]
    exact hs
  have hdeclare : s.declare (info :: infos) = (s.declare [info]).declare infos :=
    congrArg (fun r => { s with registry := r }) (s.registry.declare_append [info] infos)
  rw [StateT.run_bind, run_declare hfree, hdeclare]
  show (some s.registry.decls.length :: (y.run (s.declare [info])).1, (y.run (s.declare [info])).2) = _
  rw [hy _ hrest]
  simp [Registration.declare, Registry.declare, List.range'_succ]

theorem heads_nil : Heads [] (return []) :=
  fun s _ => congrArg ([], ·) (congrArg (fun r => { s with registry := r }) s.registry.declare_nil.symm)

theorem heads_structs (ss : List StructItem) : Heads (ss.map (·.heading)) (declareStructs ss) := by
  induction ss with
  | nil => exact heads_nil
  | cons s ss ih => exact heads_cons ih

theorem heads_enums (es : List EnumItem) : Heads (es.map (·.heading)) (declareEnums es) := by
  induction es with
  | nil => exact heads_nil
  | cons e es ih => exact heads_cons ih

theorem heads_interfaces (is : List InterfaceItem) :
    Heads (is.map (·.heading)) (declareInterfaces is) := by
  induction is with
  | nil => exact heads_nil
  | cons i is ih => exact heads_cons ih

end Register

def Module.named (m : Module) : Registration := Registration.declare {} m.headings

namespace Register

theorem run_names {m : Module} (h : m.typeNames.Nodup) :
    let structs := (declareStructs m.structs).run {}
    let enums := (declareEnums m.enums).run structs.2
    let interfaces := (declareInterfaces m.interfaces).run enums.2
    structs.1 = m.structIds ∧ enums.1 = m.enumIds ∧ interfaces = (m.interfaceIds, m.named) := by
  obtain ⟨hdecls, -, -⟩ := List.nodup_append.mp h
  obtain ⟨hplain, -, -⟩ := List.nodup_append.mp hdecls
  obtain ⟨hstructs, -, -⟩ := List.nodup_append.mp hplain
  let s₁ : Registration := Registration.declare {} (m.structs.map (·.heading))
  let s₂ : Registration := s₁.declare (m.enums.map (·.heading))
  have hnames₁ : s₁.registry.types.map (·.1) = m.structs.map (·.name) := by
    show (Registry.declare {} _).types.map _ = _
    rw [Registry.names_declare, List.map_map]
    rfl
  have hnames₂ : s₂.registry.types.map (·.1) = m.structs.map (·.name) ++ m.enums.map (·.name) := by
    show (s₁.registry.declare _).types.map _ = _
    rw [Registry.names_declare, hnames₁, List.map_map]
    rfl
  have hrun₁ : (declareStructs m.structs).run {} = (m.structIds, s₁) := by
    have hrun := heads_structs m.structs {} (by rw [List.map_map]; exact hstructs)
    rwa [List.length_map] at hrun
  have hrun₂ : (declareEnums m.enums).run s₁ = (m.enumIds, s₂) := by
    have hrun := heads_enums m.enums s₁ (by rw [hnames₁, List.map_map]; exact hplain)
    have hlength : s₁.registry.decls.length = m.structs.length := by
      simp [s₁, Registration.declare, Registry.declare]
    rwa [hlength, List.length_map] at hrun
  have hrun₃ : (declareInterfaces m.interfaces).run s₂ = (m.interfaceIds, m.named) := by
    have hrun := heads_interfaces m.interfaces s₂ (by rw [hnames₂, List.map_map]; exact hdecls)
    have hlength : s₂.registry.decls.length = m.structs.length + m.enums.length := by
      simp [s₂, s₁, Registration.declare, Registry.declare]
    have hstate : s₂.declare (m.interfaces.map (·.heading)) = m.named := by
      simp only [s₂, s₁, Registration.declare, Module.named, Module.headings, Registry.declare_append]
    rwa [hlength, List.length_map, hstate] at hrun
  dsimp only
  rw [hrun₁]
  dsimp only
  rw [hrun₂]
  dsimp only
  exact ⟨rfl, rfl, hrun₃⟩

end Register

theorem exists_of_mem_zip_range' {α β : Type} {f : α → β} {as : List α} {n : Nat} {e : Nat × β}
    (h : e ∈ (List.range' n as.length).zip (as.map f)) : ∃ k a, as[k]? = some a ∧ e = (n + k, f a) := by
  obtain ⟨k, hk⟩ := List.mem_iff_getElem?.mp h
  obtain ⟨hfst, hsnd⟩ := List.getElem?_zip_eq_some.mp hk
  rw [List.getElem?_map] at hsnd
  obtain ⟨a, ha, hfa⟩ := Option.map_eq_some_iff.mp hsnd
  obtain ⟨hlt, hget⟩ := List.getElem?_eq_some_iff.mp hfst
  refine ⟨k, a, ha, Prod.ext ?_ hfa.symm⟩
  simpa using hget.symm

namespace Module

theorem ids_declLists (m : Module) : m.declLists.map (·.1) =
    List.range' 0 m.structs.length ++ List.range' (m.structs.length + m.enums.length) m.interfaces.length := by
  rw [declLists, List.map_append, List.map_fst_zip (by simp), List.map_fst_zip (by simp)]

theorem nodup_declLists (m : Module) : (m.declLists.map (·.1)).Nodup := by
  rw [ids_declLists]
  refine List.nodup_append.mpr ⟨List.nodup_range', List.nodup_range', ?_⟩
  rintro d hd _ he rfl
  rw [List.mem_range'_1] at hd he
  omega

theorem slots_declLists (m : Module) : ∀ l ∈ m.declLists, ∃ info, m.headings[l.1]? = some info ∧
    info.generics.slots = l.2.map (·.slot) := by
  refine List.forall_mem_append.mpr ⟨fun l hl => ?_, fun l hl => ?_⟩
  · obtain ⟨k, item, hitem, rfl⟩ := exists_of_mem_zip_range' hl
    refine ⟨item.heading, ?_, slots_placeholders 0 item.generics⟩
    have hk := (List.getElem?_eq_some_iff.mp hitem).1
    rw [headings, List.append_assoc, List.getElem?_append_left (by simpa using hk)]
    simp [hitem]
  · obtain ⟨k, item, hitem, rfl⟩ := exists_of_mem_zip_range' hl
    refine ⟨item.heading, ?_, slots_placeholders 0 item.generics⟩
    rw [headings, List.getElem?_append_right (by simp)]
    simp [hitem]

theorem isInterface_headings (m : Module) {d : DeclId} {info : DeclInfo} (h : m.headings[d]? = some info)
    (hd : d < m.structs.length + m.enums.length) : info.isInterface = false := by
  rw [headings, List.getElem?_append_left (by simpa using hd)] at h
  rcases List.mem_append.mp (List.mem_of_getElem? h) with h | h
  · obtain ⟨item, -, rfl⟩ := List.mem_map.mp h
    rfl
  · obtain ⟨item, -, rfl⟩ := List.mem_map.mp h
    rfl

end Module

end TypeFlow
