import TypeFlow.Proofs.Check.Filling
import TypeFlow.Proofs.Check.Naming
import TypeFlow.Proofs.Check.WellFormed

namespace TypeFlow

namespace Registry

variable {r R : Registry} {done : List Settlement}

theorem typeDef_settle {x : String} {def' : TypeDef} (h : r.typeDef x = some def') (ds : List Settlement) :
    (r.settle ds).typeDef x = some def' := by
  show (r.types ++ _).lookup x = _
  rw [List.lookup_append, show r.types.lookup x = some def' from h]
  rfl

theorem exists_of_typeDef_settle {x : String} (hnone : r.typeDef x = none)
    (hsome : ((r.settle done).typeDef x).isSome) : ∃ d ∈ done, d.item.name = x := by
  have hlookup : (done.map (·.entry)).lookup x = (r.settle done).typeDef x := by
    show _ = (r.types ++ _).lookup x
    rw [List.lookup_append, show r.types.lookup x = none from hnone]
    rfl
  rw [← hlookup, Option.isSome_iff_exists] at hsome
  obtain ⟨def', hdef⟩ := hsome
  obtain ⟨d, hd, heq⟩ := List.mem_map.mp (mem_of_lookup hdef)
  exact ⟨d, hd, congrArg Prod.fst heq⟩

theorem outcome_of_settled (h : (r.settle done).SameTypes R) (hconsts : r.consts = R.consts) {d : Settlement}
    (hd : Register.Settled r done d) :
    d.outcome = R.resolve [] d.item.target ∨
      ∃ b ∈ done, (∃ e, b.outcome = .error e) ∧ b.item.name ∈ d.item.target.names := by
  obtain ⟨ds, es, rfl, hres, hlast⟩ := hd
  rw [settle_append] at h
  have hembeds : (r.settle ds).EmbedsIn R :=
    ⟨fun x def' hx => (h.typeDef x).symm.trans (typeDef_settle hx es), h.head, hconsts⟩
  rcases agrees_resolve hembeds d.item.target fun _ _ => rfl with heq | ⟨x, hx, hnone, hsome, hunknown⟩
  · exact .inl (hres.symm.trans heq)
  · rw [← h.typeDef x] at hsome
    obtain ⟨b, hb, rfl⟩ := exists_of_typeDef_settle hnone hsome
    exact .inr ⟨b, List.mem_append_right _ hb, hlast b.item.name (hres.symm.trans hunknown) b hb, hx⟩

end Registry

namespace Register

theorem run_setGenerics_append {ids ids' : List (Option DeclId)} {gss gss' : List (List GenericItem)}
    (h : ids.length = gss.length) (s : Registration) :
    (setGenerics (ids ++ ids') (gss ++ gss')).run s =
      (setGenerics ids' gss').run ((setGenerics ids gss).run s).2 := by
  induction ids generalizing gss s with
  | nil =>
    rw [List.eq_nil_of_length_eq_zero h.symm]
    rfl
  | cons id ids ih =>
    cases gss with
    | nil => cases h
    | cons gs gss =>
      have hlength : ids.length = gss.length := Nat.succ.inj h
      cases id with
      | none => exact ih hlength s
      | some d => exact ih hlength _

end Register

namespace Module

variable {m : Module}

theorem free_named (h : m.typeNames.Nodup) : m.named.registry.Free m.aliases := by
  have hnames : m.named.registry.types.map (·.1) =
      m.structs.map (·.name) ++ m.enums.map (·.name) ++ m.interfaces.map (·.name) := by
    show (Registry.declare {} m.headings).types.map _ = _
    rw [Registry.names_declare, headings, List.map_append, List.map_append, List.map_map, List.map_map,
      List.map_map]
    rfl
  rw [Registry.Free, hnames]
  exact h

def listed (m : Module) (done : List Settlement) : Registration :=
  ((Register.setGenerics m.interfaceIds (m.interfaces.map (·.generics))).run
    ((Register.setGenerics m.structIds (m.structs.map (·.generics))).run (m.named.settle done)).2).2

def filled (m : Module) (done : List Settlement) : Registration :=
  ((Register.enums m.enumIds m.enums).run ((Register.structs m.structIds m.structs).run
    ((Register.consts m.consts).run (m.listed done)).2).2).2

theorem registered_eq (h : m.typeNames.Nodup) :
    ∃ done : List Settlement, (done.map (·.item)).Perm m.aliases ∧
      (∀ d ∈ done, Register.Settled m.named.registry done d) ∧
      m.registered = ((Register.methods m.methods).run
        ((Register.functions m.functions).run (m.filled done)).2).2 := by
  obtain ⟨done, haliases, hperm, hsettled, -⟩ := Register.run_aliases (free_named h)
  refine ⟨done, hperm, hsettled, ?_⟩
  let structs := (Register.declareStructs m.structs).run {}
  let enums := (Register.declareEnums m.enums).run structs.2
  let interfaces := (Register.declareInterfaces m.interfaces).run enums.2
  obtain ⟨hstructs, henums, (hinterfaces : interfaces = _)⟩ := Register.run_names h
  show ((Register.methods m.methods).run ((Register.functions m.functions).run
    ((Register.enums enums.1 m.enums).run ((Register.structs structs.1 m.structs).run
      ((Register.consts m.consts).run ((Register.setGenerics interfaces.1 (m.interfaces.map (·.generics))).run
        ((Register.setGenerics structs.1 (m.structs.map (·.generics))).run
          ((Register.aliases m.aliases).run interfaces.2).2).2).2).2).2).2).2).2 = _
  rw [hstructs, henums, hinterfaces, haliases]
  rfl

theorem sameTypes_listed (m : Module) (done : List Settlement) :
    ((m.listed done).registry.before (m.declLists.map (·.1))).SameTypes (m.named.settle done).registry ∧
      ∀ R : Registry, R.SameTypes (m.listed done).registry →
        (m.listed done).errors = done.flatMap (·.errors) ++ R.listsErrors m.declLists := by
  have hlists : ∀ l ∈ m.declLists, ∃ info, (m.named.settle done).registry.decl? l.1 = some info ∧
      info.generics.slots = l.2.map (·.slot) := m.slots_declLists
  have hids : m.declLists.map (fun l => some l.1) = m.structIds ++ m.interfaceIds :=
    calc m.declLists.map (fun l => some l.1)
        = (m.declLists.map (·.1)).map some := List.map_map.symm
      _ = m.structIds ++ m.interfaceIds := by rw [ids_declLists, List.map_append, structIds, interfaceIds]
  have hgenerics : m.declLists.map (·.2) = m.structs.map (·.generics) ++ m.interfaces.map (·.generics) := by
    rw [declLists, List.map_append, List.map_snd_zip (by simp), List.map_snd_zip (by simp)]
  have hrun := Register.run_setGenerics m.nodup_declLists hlists rfl
  rw [hids, hgenerics, Register.run_setGenerics_append (by simp [structIds])] at hrun
  exact ⟨hrun.1, hrun.2.2⟩

theorem continues_filled (m : Module) (done : List Settlement) : (m.listed done).Continues (m.filled done) := by
  let ds := List.range (m.structs.length + m.enums.length)
  let s := ((Register.consts m.consts).run (m.listed done)).2
  have hconsts : (m.listed done).Continues s := Register.continues_consts m.consts _
  have hconcrete : ∀ d ∈ ds, s.registry.Concrete d := by
    intro d hd
    refine hconsts.types.concrete (Registry.concrete_of_before ((sameTypes_listed m done).1.symm.concrete ?_))
    exact fun info hinfo => isInterface_headings m hinfo (List.mem_range.mp hd)
  have hstructs : Register.Passes ds (Register.structs m.structIds m.structs) := by
    refine Register.passes_structs (fun d hd => ?_) _
    simp [structIds] at hd
    simp [ds]
    omega
  have henums : Register.Passes ds (Register.enums m.enumIds m.enums) := by
    refine Register.passes_enums (fun d hd => ?_) _
    simp [enumIds] at hd
    simp [ds]
    omega
  exact hconsts.trans ((hstructs.bind fun _ => henums) s hconcrete).toContinues

theorem errors_registered {done : List Settlement}
    (h : m.registered = ((Register.methods m.methods).run
      ((Register.functions m.functions).run (m.filled done)).2).2) :
    let R := m.registered.registry
    (m.named.settle done).registry.SameTypes (R.before (m.declLists.map (·.1))) ∧
      ∃ (contents : List CheckError) (signatures : List (FunctionItem × List CheckError))
        (rest : List CheckError), signatures.map (·.1) = m.functions ∧
        m.registered.errors = done.flatMap (·.errors) ++ R.listsErrors m.declLists ++ contents ++
          signatures.flatMap (fun f => R.listErrors f.1.generics ++ f.2) ++ rest := by
  intro R
  have hfilled := m.continues_filled done
  obtain ⟨hfunctions, -⟩ := Register.errors_functions m.functions (.refl (m.filled done).registry) rfl
  have hmethods : Register.Passes [] (Register.methods m.methods) := Register.passes_methods m.methods
  have hlast : ((Register.functions m.functions).run (m.filled done)).2.Leads m.registered := by
    rw [h]
    exact hmethods _ nofun
  have hleads : (m.filled done).Leads m.registered := hfunctions.trans hlast
  have hR : (m.listed done).registry.SameTypes R := hfilled.types.trans hleads.types
  obtain ⟨hbefore, hlists⟩ := m.sameTypes_listed done
  refine ⟨hbefore.symm.trans (hR.before _), ?_⟩
  obtain ⟨contents, hcontents⟩ := hfilled.errors
  obtain ⟨-, signatures, hsignatures, herrors⟩ :=
    Register.errors_functions m.functions hleads.types hleads.consts
  obtain ⟨rest, hrest⟩ := hlast.errors
  refine ⟨contents, signatures, rest, hsignatures, ?_⟩
  rw [← hrest, herrors, ← hcontents, hlists R hR.symm]

-- The errors of a unit begin with those of its aliases, each settled once, and of the lists of its declared
-- types; those of its functions come where the function does.
theorem accepts_check (m : Module) (config : CheckConfig) (hnames : m.typeNames.Nodup) :
    let R := (m.check config).registry
    ∃ (done : List Settlement) (contents : List CheckError)
      (signatures : List (FunctionItem × List CheckError)) (rest : List CheckError),
      (done.map (·.item)).Perm m.aliases ∧ signatures.map (·.1) = m.number.1.functions ∧
      (m.check config).errors = done.flatMap (·.errors) ++ R.listsErrors m.declLists ++ contents ++
        signatures.flatMap (fun f => R.listErrors f.1.generics ++ f.2) ++ rest ∧
      (∀ d ∈ done, (∀ b ∈ done, b.item.name ∈ d.item.target.names → b.errors = []) →
        (d.errors = [] ↔
          R.Accepts [] d.item.target ∧ R.spells (m.declLists.map (·.1)) [] d.item.target = true)) ∧
      (∀ first d gs later, m.declLists = first ++ (d, gs) :: later → ∀ g ∈ gs,
        ((R.before (d :: later.map (·.1))).defaultErrors (placeholders 0 gs) g = [] ↔
          ∀ w ∈ g.default?, R.Accepts (placeholders 0 gs) w ∧
            R.spells (d :: later.map (·.1)) (placeholders 0 gs) w = true)) ∧
      ∀ f ∈ m.functions, ∀ g ∈ f.generics,
        (R.defaultErrors (placeholders 0 f.generics) g = [] ↔
          ∀ w ∈ g.default?, R.Accepts (placeholders 0 f.generics) w) := by
  intro R
  have hnames' : m.number.1.typeNames.Nodup := hnames
  obtain ⟨done, hperm, hsettled, hregistered⟩ := registered_eq hnames'
  obtain ⟨htypes, contents, signatures, rest, hsignatures, herrors⟩ := errors_registered hregistered
  let bodies := m.number.1.registered.consts ++ BodyJob.runAll R config.policy m.number.1.registered.nextVar
    (BodyJob.ofModule R m.number.1)
  refine ⟨done, contents, signatures, rest ++ bodies.flatMap (·.errors), hperm, hsignatures, ?_, ?_, ?_, ?_⟩
  · show m.number.1.registered.errors ++ bodies.flatMap (·.errors) = _
    rw [herrors, List.append_assoc _ rest]
    rfl
  · intro d hd hclean
    rcases Registry.outcome_of_settled htypes rfl (hsettled d hd) with houtcome | ⟨b, hb, ⟨e, he⟩, hmem⟩
    · rw [Settlement.errors, houtcome, reportOf_eq_nil]
      exact R.accepts_before _ [] d.item.target
    · have hnone := hclean b hb hmem
      rw [Settlement.errors, he] at hnone
      cases hnone
  · intro _ d gs later _ g _
    rw [Registry.defaultErrors_eq_nil]
    exact forall₂_congr fun w _ => R.accepts_before _ _ w
  · exact fun f _ g _ => Registry.defaultErrors_eq_nil

def nested : Module where
  structs := [⟨"Box", [⟨"T", .type [] (some (.named "i32" [])), {}⟩], [], [], {}⟩]
  aliases := [⟨"Outer", .named "Box" [.named "Inner" []], {}⟩,
    ⟨"Inner", .named "Box" [.named "i32" []], {}⟩]
  functions := [⟨"make", [⟨"U", .type [] (some (.named "Box" [])), {}⟩], [], false, none, .missing, {}⟩]

theorem accepts_nested : nested.typeNames.Nodup ∧ (nested.check {}).errors = [] ∧
    ∃ done : List Settlement, (done.map (·.item)).Perm nested.aliases ∧
      ∀ d ∈ done, (nested.check {}).registry.Accepts [] d.item.target ∧
        (nested.check {}).registry.spells [0] [] d.item.target = true := by
  have hnames : nested.typeNames.Nodup := by decide
  have hnone : (nested.check {}).errors = [] := by decide +kernel
  obtain ⟨done, contents, signatures, rest, hperm, -, herrors, haliases, -⟩ := accepts_check nested {} hnames
  rw [hnone, eq_comm] at herrors
  have hdone : ∀ d ∈ done, d.errors = [] := by
    simp only [List.append_eq_nil_iff, List.flatMap_eq_nil_iff] at herrors
    exact herrors.1.1.1.1
  exact ⟨hnames, hnone, done, hperm, fun d hd => (haliases d hd fun b hb _ => hdone b hb).mp (hdone d hd)⟩

example : let bare := { nested with aliases := [⟨"Plain", .named "Box" [], {}⟩] }
    (bare.check {}).errors.length = 1 ∧
      ((bare.check {}).registry.resolve [] (.named "Box" [])).isOk = true := by decide +kernel

end Module

end TypeFlow
