import TypeFlow.Proofs.Check.Suiting
import TypeFlow.Proofs.Check.Units

namespace TypeFlow

namespace Module

open Register Registry

structure Suits (m : Module) (R : Registry) : Prop where
  structs : ∀ s ∈ m.structs, R.SuitsParams (R.genericsNamed s.name) s.generics ∧
    R.SuitsAll (R.genericsNamed s.name) s.written
  enums : ∀ e ∈ m.enums, R.SuitsAll [] e.written
  interfaces : ∀ i ∈ m.interfaces, R.SuitsParams (R.genericsNamed i.name) i.generics
  consts : ∀ c ∈ m.consts, R.SuitsAll [] c.written
  functions : ∀ f ∈ m.functions, R.SuitsParams (R.genericsOfFunction f.name) f.generics ∧
    R.SuitsAll (R.genericsOfFunction f.name) f.written
  methods : ∀ f ∈ m.methods, R.SuitsAll (R.genericsNamed f.receiverType) f.written

theorem exists_placeholders_of_headings {m : Module} {info : DeclInfo} (h : info ∈ m.headings) :
    (∃ gs, info.generics = placeholders 0 gs) ∧ ∀ t ∈ info.kind.types, t = .prim .i32 := by
  simp only [headings, List.mem_append, List.mem_map] at h
  rcases h with (⟨s, -, rfl⟩ | ⟨e, -, rfl⟩) | ⟨i, -, rfl⟩
  · exact ⟨⟨s.generics, rfl⟩, List.forall_mem_nil _⟩
  · exact ⟨⟨[], rfl⟩, List.forall_mem_singleton.mpr rfl⟩
  · exact ⟨⟨i.generics, rfl⟩, List.forall_mem_nil _⟩

theorem stocks_begun (m : Module) (R : Registry) : R.Stocks m.begun.registry := by
  obtain ⟨ss, es, is, hkept, hregistry, -⟩ := m.begun_eq
  have hheading {d : DeclId} {info : DeclInfo} (hd : m.begun.registry.decl? d = some info) : info ∈ m.headings := by
    rw [hregistry] at hd
    exact hkept.subset (List.mem_of_getElem? hd)
  refine ⟨?_, fun d => ?_, fun {d info} hd t ht => ?_, ?_, ?_, ?_⟩
  · rw [hregistry]
    intro e he t ht
    obtain ⟨q, -, rfl⟩ := List.mem_map.mp he
    cases ht
  · cases hd : m.begun.registry.decl? d with
    | none =>
      have hnil : m.begun.registry.genericsOf d = [] := by
        rw [genericsOf, hd]
        rfl
      rw [hnil]
      exact fixesParams_nil
    | some info =>
      obtain ⟨⟨gs, hgs⟩, -⟩ := exists_placeholders_of_headings (hheading hd)
      rw [genericsOf_of_decl? hd, hgs]
      exact fixesParams_placeholders _ _
  · rw [(exists_placeholders_of_headings (hheading hd)).2 t ht]
    exact closed_obeys.leaf rfl rfl
  all_goals
    rw [hregistry]
    exact List.forall_mem_nil _

theorem blank_begun (m : Module) : m.begun.Blank := by
  obtain ⟨⟨hstructs, -⟩, -⟩ := declares_structs m.structs [] {} ⟨blank_initial, List.nil_prefix⟩
  obtain ⟨⟨henums, -⟩, -⟩ := declares_enums m.enums [] _ ⟨hstructs, List.nil_prefix⟩
  obtain ⟨⟨hinterfaces, -⟩, -⟩ := declares_interfaces m.interfaces [] _ ⟨henums, List.nil_prefix⟩
  exact hinterfaces

theorem enrolls_begun (m : Module) :
    let structs := (declareStructs m.structs).run {}
    let enums := (declareEnums m.enums).run structs.2
    let interfaces := (declareInterfaces m.interfaces).run enums.2
    m.begun.registry.EnrollsAll structs.1 (m.structs.map (·.heading)) ∧
      m.begun.registry.EnrollsAll interfaces.1 (m.interfaces.map (·.heading)) := by
  intro structs enums interfaces
  obtain ⟨-, hstructs⟩ := enters_structs m.structs {}
  obtain ⟨henums, -⟩ := enters_enums m.enums structs.2
  obtain ⟨hgrows, hinterfaces⟩ := enters_interfaces m.interfaces enums.2
  exact ⟨fun e he d hd => (hstructs e he d hd).mono (henums.trans hgrows), hinterfaces⟩

theorem front_registered (m : Module) : m.registered.registry.front = m.opened.registry.front := by
  have hkind (r : Registry) (d : DeclId) (kind : DeclKind) :
      (r.modifyDecl d fun info => { info with kind }).front = r.front := front_modifyDecl r d fun _ => rfl
  rw [registered_opened]
  exact (leaves_methods (fun _ _ _ => front_addMethod) _ _).trans <|
    (leaves_functions (fun _ _ _ => front_addFunction) _ _).trans <|
      (leaves_enums hkind front_noteImplementor _ _ _).trans (leaves_structs hkind front_noteImplementor _ _ _)

theorem prefix_types (m : Module) : m.begun.registry.types <+: m.registered.registry.types := by
  have haliases : Preserves (fun s => m.begun.registry.types <+: s.registry.types) (fun _ => True)
      (Register.aliases m.aliases) := by
    refine preserves_aliases (fun _ _ hs => hs) (fun s x w t hs _ => ?_) m.aliases
    cases hadd : s.registry.addAlias x t with
    | none => exact hs
    | some r =>
      obtain ⟨-, rfl⟩ := eq_of_addAlias hadd
      exact hs.trans (List.prefix_append _ _)
  have htypes : m.opened.registry.types = ((Register.aliases m.aliases).run m.begun).2.registry.types := by
    have hgenerics := leaves_setGenerics (f := (·.types)) fun _ _ _ => rfl
    have hconsts := leaves_consts (f := (·.types)) fun _ _ _ _ h => congrArg (·.types) (eq_of_addConst h).2
    exact (hconsts _ _).trans ((hgenerics _ _ _).trans (hgenerics _ _ _))
  rw [show m.registered.registry.types = _ from congrArg (·.1) m.front_registered]
  show _ <+: m.opened.registry.types
  rw [htypes]
  exact (haliases m.begun (List.prefix_refl _)).1

theorem enrolls_of_zip {γ : Type} {r : Registry} {heading : γ → DeclInfo} {ids : List (Option DeclId)}
    {items : List γ} (h : r.EnrollsAll ids (items.map heading)) :
    ∀ e ∈ ids.zip items, ∀ d, e.1 = some d → r.Enrolls d (heading e.2) := by
  unfold EnrollsAll at h
  rw [List.zip_map_right] at h
  exact List.forall_mem_map.mp h

theorem forms_registered (m : Module) (d : DeclId) :
    (m.registered.registry.genericsOf d).forms = (m.begun.registry.genericsOf d).forms := by
  let forms (d : DeclId) := (m.begun.registry.genericsOf d).forms
  obtain ⟨hstructs, hinterfaces⟩ := m.enrolls_begun
  have hwalk {γ : Type} {heading : γ → DeclInfo} {generics : γ → List GenericItem} {ids : List (Option DeclId)}
      {items : List γ} (henrolls : m.begun.registry.EnrollsAll ids (items.map heading))
      (hheading : ∀ x, (heading x).generics = placeholders 0 (generics x)) :
      Preserves (fun s => ∀ d, (s.registry.genericsOf d).forms = forms d) (fun _ => True)
        (setGenerics ids (items.map generics)) := by
    refine preserves_forms_setGenerics ?_
    rw [List.zip_map_right]
    refine List.forall_mem_map.mpr fun e he d hd => ?_
    have henrolls := enrolls_of_zip henrolls e he d hd
    show (placeholders 0 (generics e.2)).forms = (m.begun.registry.genericsOf d).forms
    rw [genericsOf_of_decl? henrolls.decl, hheading]
  have haliases := leaves_aliases (f := Registry.genericsOf)
    (fun _ _ _ _ h => genericsOf_of_decls (decls_addAlias h)) m.aliases m.begun
  rw [genericsOf_of_front m.front_registered]
  show ((Registry.genericsOf ((Register.consts m.consts).run _).2.registry) d).forms = _
  rw [leaves_generics_consts]
  refine (hwalk hinterfaces (fun _ => rfl) _ ?_).1 d
  refine (hwalk hstructs (fun _ => rfl) _ fun d => ?_).1
  rw [haliases]

theorem named_of_enrolls {m : Module} {γ : Type} {heading : γ → DeclInfo} {generics : γ → List GenericItem}
    (hheading : ∀ x, (heading x).generics = placeholders 0 (generics x)) {ids : List (Option DeclId)}
    {items : List γ} (h : m.begun.registry.EnrollsAll ids (items.map heading)) :
    ∀ e ∈ ids.zip items, ∀ d, e.1 = some d →
      m.registered.registry.genericsNamed (heading e.2).name = m.registered.registry.genericsOf d ∧
        (placeholders 0 (generics e.2)).forms = (m.registered.registry.genericsOf d).forms := by
  intro e he d hd
  have henrolls := enrolls_of_zip h e he d hd
  refine ⟨genericsNamed_of_typeDef (lookup_of_isPrefix m.prefix_types henrolls.typeDef), ?_⟩
  rw [forms_registered, genericsOf_of_decl? henrolls.decl, hheading]

theorem suitParams_of_enrolls {m : Module} {γ : Type} {heading : γ → DeclInfo} {generics : γ → List GenericItem}
    (hheading : ∀ x, (heading x).generics = placeholders 0 (generics x)) {ids : List (Option DeclId)}
    {items : List γ} (h : m.begun.registry.EnrollsAll ids (items.map heading))
    (hsuits : ∀ x ∈ items, m.registered.registry.SuitsParams
      (m.registered.registry.genericsNamed (heading x).name) (generics x)) :
    SuitParams m.registered.registry id ids (items.map generics) := by
  unfold SuitParams
  rw [List.zip_map_right]
  refine List.forall_mem_map.mpr fun e he d hd => ?_
  obtain ⟨hname, hforms⟩ := named_of_enrolls hheading h e he d hd
  exact ⟨hforms, hname ▸ hsuits e.2 (List.of_mem_zip he).2⟩

theorem suits_begun (m : Module) : m.begun.Suits m.registered.registry where
  stocks := m.stocks_begun _
  precedes := {
    declared := fun hx => lookup_of_isPrefix m.prefix_types hx
    forms := fun d => (m.forms_registered d).symm
    constant := fun {x info} hx => by
      rw [Registry.constant, m.blank_begun.constants] at hx
      cases hx }
  const := by
    rw [m.blank_begun.consts]
    exact List.forall_mem_nil _

theorem suits_opened {m : Module} (h : m.Suits m.registered.registry) : m.opened.Suits m.registered.registry := by
  obtain ⟨hstructs, hinterfaces⟩ := m.enrolls_begun
  have haliases := preserves_suits_aliases m.aliases m.begun ⟨m.suits_begun, m.blank_begun.constants⟩
  have hparams := preserves_suits_setGenerics
    (suitParams_of_enrolls (fun _ => rfl) hstructs fun s hs => (h.structs s hs).1) _ haliases.1.1
  have hgenerics := preserves_suits_setGenerics
    (suitParams_of_enrolls (fun _ => rfl) hinterfaces h.interfaces) _ hparams.1
  refine suits_consts h.consts hgenerics.1 ?_ ?_
  · exact (leaves_generics_consts m.consts _).symm.trans (genericsOf_of_front m.front_registered).symm
  · have hconsts : m.registered.registry.consts = m.opened.registry.consts := congrArg (·.2.2) m.front_registered
    rw [hconsts]
    exact List.prefix_refl _

theorem suits_registered {m : Module} (h : m.Suits m.registered.registry) :
    m.registered.Suits m.registered.registry := by
  let R := m.registered.registry
  let structs := (declareStructs m.structs).run {}
  let enums := (declareEnums m.enums).run structs.2
  let filled := (Register.enums enums.1 m.enums).run ((Register.structs structs.1 m.structs).run m.opened).2
  have hstructs : Preserves (·.Suits R) (fun _ => True) (Register.structs structs.1 m.structs) := by
    refine preserves_walk walks_structs fun e he d hd => preserves_suits_struct ?_
    have hname := (named_of_enrolls (fun _ => rfl) m.enrolls_begun.1 e he d hd).1
    exact hname ▸ (h.structs e.2 (List.of_mem_zip he).2).2
  have henums : Preserves (·.Suits R) (fun _ => True) (Register.enums enums.1 m.enums) :=
    preserves_walk walks_enums fun e he d hd => preserves_suits_enum (h.enums e.2 (List.of_mem_zip he).2)
  have hmethods : Preserves (·.Suits R) (fun _ => True) (Register.methods m.methods) :=
    preserves_methods fun f hf => preserves_suits_method (h.methods f hf)
  have hfilled : filled.2.Suits R := (henums _ (hstructs _ (suits_opened h)).1).1
  have hfunctions : R.functions = ((Register.functions m.functions).run filled.2).2.registry.functions :=
    leaves_methods (f := (·.functions)) (fun _ _ _ h => congrArg (·.functions) (eq_of_addMethod h).2) m.methods _
  have hsigned := suits_functions h.functions hfilled (hfunctions ▸ List.prefix_refl _)
  exact (hmethods _ hsigned).1

end Module

namespace Registry

variable {R : Registry} {gs : Generics}

theorem Precedes.refl (R : Registry) : R.Precedes R := ⟨id, fun _ => rfl, id⟩

theorem FixesParams.types (h : R.FixesParams gs gs) : ∀ t ∈ gs.flatMap (·.types), R.InDomains t := by
  intro t ht
  obtain ⟨q, hq, ht⟩ := List.mem_flatMap.mp ht
  obtain ⟨k, hk⟩ := List.getElem?_of_mem hq
  obtain ⟨hbound, hdefault, hconst⟩ := h k q hk
  obtain ⟨x, i, kind⟩ := q
  cases kind with
  | type bs d =>
    rcases List.mem_append.mp ht with ht | ht
    · exact (hbound t ht).inDomains
    · exact (hdefault t (Option.mem_toList.mp ht)).inDomains
  | const u =>
    rw [List.mem_singleton.mp ht]
    exact (hconst u rfl).inDomains

theorem Stocks.storedTypes (h : R.Stocks R) : ∀ t ∈ R.storedTypes, R.InDomains t := by
  have hsig {known : Generics} {sig : Signature} (hparams : R.FixesParams sig.generics sig.generics)
      (hall : sig.All (R.Fixes known)) : ∀ t ∈ sig.types, R.InDomains t := by
    refine List.forall_mem_append.mpr ⟨List.forall_mem_append.mpr ⟨hparams.types, ?_⟩, ?_⟩
    · exact List.forall_mem_map.mpr fun q hq => (hall.param q hq).inDomains
    · exact List.forall_mem_singleton.mpr hall.ret.inDomains
  refine forall_storedTypes (fun e he t ht => (h.aliased e he t ht).inDomains) (fun {d info} hd => ?_)
    (fun sig hs => hsig (h.function sig hs).1 (h.function sig hs).2) (fun m hm => ?_) h.constant
  · have hparams : R.FixesParams (R.genericsOf d) (R.genericsOf d) := h.generic d
    rw [genericsOf_of_decl? hd] at hparams
    exact List.forall_mem_append.mpr ⟨hparams.types, fun t ht => (h.kind hd t ht).inDomains⟩
  · obtain ⟨hnil, hall⟩ := h.method m hm
    refine hsig ?_ hall
    rw [hnil]
    exact fixesParams_nil

theorem Stocks.supplies (h : R.Stocks R) : R.Supplies fun _ => R.InDomains where
  closed _ := closed_obeys
  function sig hsig :=
    ⟨fun q hq => ((h.function sig hsig).2.param q hq).inDomains, (h.function sig hsig).2.ret.inDomains⟩
  method {m info} hm _ := ⟨fun q hq => ((h.method m hm).2.param q hq).inDomains, (h.method m hm).2.ret.inDomains⟩
  receiver {d info} _ := by
    -- The arguments of a receiver are the parameters themselves.
    have harg {k : Nat} {a : Ty} (ha : (info.generics.map (·.ty))[k]? = some a) : R.Permits Ty.InDomain d k a := by
      rintro g t - - v rfl
      rw [List.getElem?_map] at ha
      obtain ⟨q, -, hq⟩ := Option.map_eq_some_iff.mp ha
      cases hq
    unfold DeclInfo.instantiate
    split
    all_goals
      refine .intro harg (List.forall_mem_map.mpr fun q _ => ?_)
      exact .intro True.intro (List.forall_mem_nil _)

end Registry

namespace BodyJob

variable {R : Registry}

theorem inDomains_run (h : R.Stocks R) (policy : ErrorPolicy) (n : Nat) {j : BodyJob} (hj : j.Holds R.InDomains)
    (hw : R.SuitsAll j.generics j.body.annotations) : (j.run R policy n).Holds R.InDomains := by
  let c : BodyContext := { registry := R, generics := j.generics, returnType := j.ret, policy }
  have L : TypeLaws c R.InDomains (R.SuitsIn j.generics j.generics) := h.laws (.refl R) rfl hj.ret
  let V := L.recorded Registry.inDomains_error
  have hbody : V.Checks j.body.asChild := BodyInvariant.checks _ (fun _ _ => True.intro) hw
  exact holds_check hj hbody (.initial n)

theorem suits_ofModule {m : Module} (h : m.Suits R) :
    ∀ j ∈ ofModule R m, R.SuitsAll j.generics j.body.annotations := by
  refine List.forall_mem_append.mpr ⟨fun j hj => ?_, fun j hj => ?_⟩
  · obtain ⟨f, hf, hj⟩ := List.mem_filterMap.mp hj
    unfold ofFunction at hj
    split at hj
    · next sig hsig =>
      have hgenerics : R.genericsOfFunction f.name = sig.generics := by
        rw [Registry.genericsOfFunction, hsig]
        rfl
      split at hj <;> cases hj
      exact hgenerics ▸ (List.forall_mem_append.mp (h.functions f hf).2).2
    · cases hj
  · obtain ⟨f, hf, hj⟩ := List.mem_filterMap.mp hj
    unfold ofMethod at hj
    obtain ⟨d, hd, hj⟩ := Option.bind_eq_some_iff.mp hj
    obtain ⟨sig, -, hj⟩ := Option.bind_eq_some_iff.mp hj
    obtain ⟨info, hinfo, hj⟩ := Option.bind_eq_some_iff.mp hj
    have hgenerics : R.genericsNamed f.receiverType = info.generics := by
      rw [Registry.genericsNamed_of_typeDef (Registry.typeDef_of_declNamed hd), Registry.genericsOf_of_decl? hinfo]
    split at hj <;> cases hj
    exact hgenerics ▸ (List.forall_mem_append.mp (h.methods f hf)).2

end BodyJob

namespace Module

theorem Suits.number {m : Module} {R : Registry} (h : m.Suits R) : m.number.1.Suits R where
  structs := h.structs
  enums := h.enums
  interfaces := h.interfaces
  consts c hc := by
    obtain ⟨d, hd, k, rfl⟩ := mem_numberConsts hc
    obtain ⟨hty, hvalue⟩ := List.forall_mem_append.mp (h.consts d hd)
    exact List.forall_mem_append.mpr ⟨hty, fun w hw => hvalue w (Expr.mem_annotations_of_number hw)⟩
  functions f hf := by
    obtain ⟨g, hg, k, rfl⟩ := mem_numberFunctions hf
    obtain ⟨hgenerics, hwritten⟩ := h.functions g hg
    obtain ⟨htypes, hbody⟩ := List.forall_mem_append.mp hwritten
    refine ⟨hgenerics, List.forall_mem_append.mpr ⟨htypes, fun w hw => ?_⟩⟩
    exact hbody w (Expr.mem_annotations_of_number hw)
  methods f hf := by
    obtain ⟨g, hg, k, rfl⟩ := mem_numberMethods hf
    obtain ⟨htypes, hbody⟩ := List.forall_mem_append.mp (h.methods g hg)
    exact List.forall_mem_append.mpr ⟨htypes, fun w hw => hbody w (Expr.mem_annotations_of_number hw)⟩

-- The written constants are right for their parameters; those that are computed are right anyway.
theorem inDomains_check (m : Module) (config : CheckConfig) (h : m.Suits (m.check config).registry) :
    (∀ t, (m.check config).Records t → (m.check config).registry.InDomains t) ∧
      ∀ t ∈ (m.check config).registry.storedTypes, (m.check config).registry.InDomains t := by
  let R := m.number.1.registered.registry
  have hsuits : m.number.1.Suits R := h.number
  have hregistered := suits_registered hsuits
  have hstocks : R.Stocks R := hregistered.stocks
  have hjobs := BodyJob.holds_ofModule hstocks.supplies m.number.1
  have hbodies : ∀ b ∈ m.number.1.registered.consts ++ m.number.1.states config, b.Holds R.InDomains := by
    refine List.forall_mem_append.mpr ⟨hregistered.const, fun b hb => ?_⟩
    obtain ⟨j, hj, k, rfl⟩ := BodyJob.mem_runAll hb
    exact BodyJob.inDomains_run hstocks config.policy k (hjobs j hj) (BodyJob.suits_ofModule hsuits j hj)
  refine ⟨fun t ht => ?_, hstocks.storedTypes⟩
  obtain ⟨b, hb, ⟨i, hi⟩ | ⟨e, he, ht⟩⟩ := recorded_of_records_checkNumbered ht
  · exact (hbodies b hb).type _ hi
  · exact (hbodies b hb).inst _ he t ht

def sized (size : Int64) : Module where
  structs := [⟨"Buf", [⟨"N", .const (.named "u8" []), {}⟩], [], [], {}⟩]
  consts := [⟨"SIZE", some (.named "i32" []), .int {} size, {}⟩]
  functions := [⟨"keep", [], [⟨"b", .named "Buf" [.named "SIZE" []], false, {}⟩], false, none, .ident {} "b", {}⟩]

theorem suits_sized {R : Registry} {size : Int64}
    (h : ∀ c ∈ R.constArgs (R.genericsOfFunction "keep") "Buf" [.named "SIZE" []],
      Ty.Meets (R.genericsOfFunction "keep") c.1 c.2) : (sized size).Suits R where
  structs := by
    refine List.forall_mem_singleton.mpr ⟨⟨?_, ?_, ?_⟩, List.forall_mem_nil _⟩
    · exact List.forall_mem_singleton.mpr (List.forall_mem_nil _)
    · rintro k g hg w hw
      rw [List.mem_singleton.mp (List.mem_of_getElem? hg)] at hw
      cases hw
    · refine List.forall_mem_singleton.mpr fun w hw => ?_
      cases hw
      exact R.suitsIn_plain _ _ "u8"
  enums := List.forall_mem_nil _
  interfaces := List.forall_mem_nil _
  consts := by
    refine List.forall_mem_singleton.mpr (List.forall_mem_append.mpr ⟨?_, ?_⟩)
    · exact List.forall_mem_singleton.mpr (R.suitsIn_plain [] [] "i32")
    · rw [Expr.annotations_eq]
      exact List.forall_mem_nil _
  functions := by
    refine List.forall_mem_singleton.mpr ⟨⟨List.forall_mem_nil _, ?_, List.forall_mem_nil _⟩, ?_⟩
    · exact fun k g hg => nomatch hg
    · refine List.forall_mem_append.mpr ⟨List.forall_mem_singleton.mpr (List.forall_mem_cons.mpr ⟨h, ?_⟩), ?_⟩
      · exact R.suitsIn_plain _ _ "SIZE"
      · rw [Expr.annotations_eq]
        exact List.forall_mem_nil _
  methods := List.forall_mem_nil _

theorem inDomains_sized :
    let R := ((sized 3).check {}).registry
    (sized 3).Suits R ∧ ((sized 3).check {}).Records (.named 0 [.const (.int 3)]) ∧
      R.InDomains (.named 0 [.const (.int 3)]) := by
  intro R
  have hargs : R.constArgs (R.genericsOfFunction "keep") "Buf" [.named "SIZE" []] =
      [(.prim .u8, .const (.int 3))] := by decide +kernel
  have hsuits : (sized 3).Suits R := by
    refine suits_sized ?_
    rw [hargs]
    exact List.forall_mem_singleton.mpr (by decide : (ConstValue.int 3).inDomain (.prim .u8) = true)
  have hrecords : ((sized 3).check {}).Records (.named 0 [.const (.int 3)]) := .inl (by decide +kernel)
  exact ⟨hsuits, hrecords, (inDomains_check (sized 3) {} hsuits).1 _ hrecords⟩

example : ((sized 300).check {}).errors = [] ∧ ((sized 300).check {}).Records (.named 0 [.const (.int 300)]) ∧
    (ConstValue.int 300).inDomain (.prim .u8) = false :=
  ⟨by decide +kernel, .inl (by decide +kernel), by decide⟩

end Module

end TypeFlow
