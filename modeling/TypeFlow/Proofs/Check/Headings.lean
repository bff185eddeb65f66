import TypeFlow.Proofs.Check.Naming
import TypeFlow.Proofs.Check.Registration

namespace TypeFlow

namespace Registry

structure Grows (r r' : Registry) : Prop where
  types : r.types <+: r'.types
  decls : r.decls <+: r'.decls

theorem Grows.refl (r : Registry) : r.Grows r := ⟨List.prefix_refl _, List.prefix_refl _⟩

theorem Grows.trans {r₁ r₂ r₃ : Registry} (h : r₁.Grows r₂) (k : r₂.Grows r₃) : r₁.Grows r₃ :=
  ⟨h.types.trans k.types, h.decls.trans k.decls⟩

structure Enrolls (r : Registry) (d : DeclId) (info : DeclInfo) : Prop where
  typeDef : r.typeDef info.name = some (.decl d)
  decl : r.decl? d = some info

theorem Enrolls.mono {r r' : Registry} {d : DeclId} {info : DeclInfo} (h : r.Enrolls d info) (k : r.Grows r') :
    r'.Enrolls d info := ⟨lookup_of_isPrefix k.types h.typeDef, getElem?_of_isPrefix k.decls h.decl⟩

def EnrollsAll (r : Registry) (ids : List (Option DeclId)) (infos : List DeclInfo) : Prop :=
  ∀ e ∈ ids.zip infos, ∀ d, e.1 = some d → r.Enrolls d e.2

theorem enrolls_declare {r : Registry} {info : DeclInfo} (h : r.typeDef info.name = none) :
    r.Grows (r.declare [info]) ∧ (r.declare [info]).Enrolls r.decls.length info := by
  refine ⟨⟨List.prefix_append _ _, List.prefix_append _ _⟩, ⟨?_, ?_⟩⟩
  · show (r.types ++ [(info.name, TypeDef.decl r.decls.length)]).lookup info.name = _
    rw [List.lookup_append, show r.types.lookup info.name = none from h]
    simp
  · show (r.decls ++ [info])[r.decls.length]? = _
    simp

end Registry

namespace Register

theorem run_declare_of_taken {x : String} {span : Span} {gs : List GenericItem} {kind : DeclKind} {s : Registration}
    {def' : TypeDef} (h : s.registry.typeDef x = some def') : (declare x span gs kind).run s =
      (none, { s with errors := s.errors ++ [⟨span, .duplicateDefinition x⟩] }) := by
  unfold declare
  simp only [StateT.run_bind, StateT.run_get, pure_bind]
  rw [Registry.addDecl, h]
  rfl

def Admits (infos : List DeclInfo) (x : Register (List (Option DeclId))) : Prop :=
  ∀ s : Registration, ∃ kept : List DeclInfo, kept.Sublist infos ∧
    (x.run s).2.registry = s.registry.declare kept ∧
    (x.run s).1.filterMap id = List.range' s.registry.decls.length kept.length ∧
    ((s.registry.types.map (·.1)).Nodup → ((x.run s).2.registry.types.map (·.1)).Nodup)

theorem admits_nil : Admits [] (return []) :=
  fun s => ⟨[], .slnil, s.registry.declare_nil.symm, rfl, id⟩

theorem admits_cons {x : String} {span : Span} {gs : List GenericItem} {kind : DeclKind}
    {infos : List DeclInfo} {y : Register (List (Option DeclId))} (hy : Admits infos y) :
    Admits (⟨x, placeholders 0 gs, kind, span⟩ :: infos) (do
      let id ← declare x span gs kind
      return id :: (← y)) := by
  intro s
  let info : DeclInfo := ⟨x, placeholders 0 gs, kind, span⟩
  cases hdef : s.registry.typeDef x with
  | none =>
    obtain ⟨kept, hsub, hregistry, hids, hnodup⟩ := hy (s.declare [info])
    have hrun : ((do return (← declare x span gs kind) :: (← y)) : Register _).run s =
        (some s.registry.decls.length :: (y.run (s.declare [info])).1, (y.run (s.declare [info])).2) := by
      rw [StateT.run_bind, run_declare hdef]
      rfl
    rw [hrun]
    refine ⟨info :: kept, hsub.cons_cons info, ?_, ?_, fun hnames => hnodup ?_⟩
    · exact hregistry.trans (s.registry.declare_append [info] kept).symm
    · show s.registry.decls.length :: (y.run (s.declare [info])).1.filterMap id = _
      rw [hids, List.length_cons, List.range'_succ]
      simp [Registration.declare, Registry.declare]
    · show ((s.registry.declare [info]).types.map (·.1)).Nodup
      rw [Registry.names_declare]
      refine List.nodup_append.mpr ⟨hnames, List.pairwise_singleton _ _, fun y hy z hz => ?_⟩
      obtain ⟨e, he, rfl⟩ := List.mem_map.mp hy
      rw [List.mem_singleton.mp hz]
      have hne : x ≠ e.1 := by simpa using List.lookup_eq_none_iff.mp hdef e he
      exact hne.symm
  | some def' =>
    let s' : Registration := { s with errors := s.errors ++ [⟨span, .duplicateDefinition x⟩] }
    obtain ⟨kept, hsub, hregistry, hids, hnodup⟩ := hy s'
    have hdeclare : (declare x span gs kind).run s = (none, s') := run_declare_of_taken hdef
    have hrun : ((do return (← declare x span gs kind) :: (← y)) : Register _).run s =
        (none :: (y.run s').1, (y.run s').2) := by
      rw [StateT.run_bind, hdeclare]
      rfl
    rw [hrun]
    exact ⟨kept, hsub.cons _, hregistry, hids, hnodup⟩

def Enters (infos : List DeclInfo) (x : Register (List (Option DeclId))) : Prop :=
  ∀ s, s.registry.Grows (x.run s).2.registry ∧ (x.run s).2.registry.EnrollsAll (x.run s).1 infos

theorem enters_cons {x : String} {span : Span} {gs : List GenericItem} {kind : DeclKind} {infos : List DeclInfo}
    {y : Register (List (Option DeclId))} (hy : Enters infos y) :
    Enters (⟨x, placeholders 0 gs, kind, span⟩ :: infos) (do
      let id ← declare x span gs kind
      return id :: (← y)) := by
  intro s
  let info : DeclInfo := ⟨x, placeholders 0 gs, kind, span⟩
  let first := (declare x span gs kind).run s
  have hfirst : s.registry.Grows first.2.registry ∧ ∀ d, first.1 = some d → first.2.registry.Enrolls d info := by
    cases hdef : s.registry.typeDef x with
    | none =>
      have hrun : first = (some s.registry.decls.length, s.declare [info]) := run_declare hdef
      obtain ⟨hgrows, henrolls⟩ := @Registry.enrolls_declare s.registry info hdef
      rw [hrun]
      refine ⟨hgrows, fun d hd => ?_⟩
      cases hd
      exact henrolls
    | some def' =>
      have hrun : first = (none, { s with errors := s.errors ++ [⟨span, .duplicateDefinition x⟩] }) :=
        run_declare_of_taken hdef
      rw [hrun]
      exact ⟨.refl _, nofun⟩
  obtain ⟨hgrows, hrest⟩ := hy first.2
  exact ⟨hfirst.1.trans hgrows, List.forall_mem_cons.mpr ⟨fun d hd => (hfirst.2 d hd).mono hgrows, hrest⟩⟩

theorem enters_structs (ss : List StructItem) : Enters (ss.map (·.heading)) (declareStructs ss) := by
  induction ss with
  | nil => exact fun s => ⟨.refl _, nofun⟩
  | cons s ss ih => exact enters_cons ih

theorem enters_enums (es : List EnumItem) : Enters (es.map (·.heading)) (declareEnums es) := by
  induction es with
  | nil => exact fun s => ⟨.refl _, nofun⟩
  | cons e es ih => exact @enters_cons e.name e.span [] (.enum (.prim .i32) [] []) _ _ ih

theorem enters_interfaces (is : List InterfaceItem) : Enters (is.map (·.heading)) (declareInterfaces is) := by
  induction is with
  | nil => exact fun s => ⟨.refl _, nofun⟩
  | cons i is ih => exact enters_cons ih

theorem admits_structs (ss : List StructItem) : Admits (ss.map (·.heading)) (declareStructs ss) := by
  induction ss with
  | nil => exact admits_nil
  | cons s ss ih => exact admits_cons ih

theorem admits_enums (es : List EnumItem) : Admits (es.map (·.heading)) (declareEnums es) := by
  induction es with
  | nil => exact admits_nil
  | cons e es ih => exact @admits_cons e.name e.span [] (.enum (.prim .i32) [] []) _ _ ih

theorem admits_interfaces (is : List InterfaceItem) : Admits (is.map (·.heading)) (declareInterfaces is) := by
  induction is with
  | nil => exact admits_nil
  | cons i is ih => exact admits_cons ih

end Register

theorem Module.begun_eq (m : Module) :
    let structs := (Register.declareStructs m.structs).run {}
    let enums := (Register.declareEnums m.enums).run structs.2
    ∃ ss es is : List DeclInfo, (ss ++ es ++ is).Sublist m.headings ∧
      m.begun.registry = Registry.declare {} (ss ++ es ++ is) ∧
      (m.begun.registry.types.map (·.1)).Nodup ∧ structs.1.filterMap id = List.range' 0 ss.length ∧
      enums.1.filterMap id = List.range' ss.length es.length := by
  intro structs enums
  obtain ⟨ss, hss, hstructs, hsids, hnames⟩ := Register.admits_structs m.structs {}
  obtain ⟨es, hes, henums, heids, hnames'⟩ := Register.admits_enums m.enums structs.2
  obtain ⟨is, his, hinterfaces, -, hnames''⟩ := Register.admits_interfaces m.interfaces enums.2
  have hregistry : m.begun.registry = Registry.declare {} (ss ++ es ++ is) := by
    rw [Registry.declare_append, Registry.declare_append, ← hstructs, ← henums]
    exact hinterfaces
  refine ⟨ss, es, is, (hss.append hes).append his, hregistry, hnames'' (hnames' (hnames List.nodup_nil)), hsids, ?_⟩
  rw [heids, hstructs]
  simp [Registry.declare]

end TypeFlow
