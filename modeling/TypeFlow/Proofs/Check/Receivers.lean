import TypeFlow.Proofs.Check.ErrorFree
import TypeFlow.Proofs.Check.Sites

namespace TypeFlow

namespace Module

variable {m : Module} {config : CheckConfig} {good : Ty → Prop} {j : BodyJob} {σ : Scope} {e : Expr} {x : String}
  {s site : Site} {t : Ty}

theorem receiver_of_visits (h : (m.check config).errors = []) (hj : j ∈ m.number.1.jobs)
    (L : BodyLaws (j.context (m.check config).registry config.policy) good)
    (hp : ∀ p ∈ j.params, good p.ty) (hbody : j.body.Complete ∧ j.body.isPresent = true ∨ good .error)
    (hn : (m.check config).Visits (j.context (m.check config).registry config.policy) j σ (.field s e x)
      site t) :
    ∃ u, (m.check config).findings.exprType e = some u ∧ good u ∧
      (u = .error ∨ (∃ f, (m.check config).registry.fieldType u x = some f) ∨
        ∃ p q, e.path? = some p ∧ p.startsWith q = true ∧ q ∈ j.body.tested ∧
          p.field x ∈ j.body.tested) := by
  obtain ⟨b, hb⟩ := BodyJob.exists_run m.number.1.registered.registry config.policy
    m.number.1.registered.nextVar hj
  have hchecked := checked_check (· ∈ j.body.tested) hb (.inr h) L (fun hne => absurd h hne) hp
    (fun _ hp => hp) hbody
  obtain ⟨u, hu, hgood, hfield⟩ := hchecked.meets σ _ site t hn.within hn.site hn.type True.intro
  exact ⟨u, hu, L.types.loose_iff.mp hgood, hfield.imp_right fun hfield => hfield.resolve_left (Findings.not_failed h)⟩

theorem hasField_check (m : Module) (config : CheckConfig) (h : (m.check config).errors = [])
    {j : BodyJob} (hj : j ∈ BodyJob.ofModule (m.check config).registry m.number.1) {σ : Scope} {e : Expr}
    {x : String} {s site : Site} {t : Ty}
    (hn : (m.check config).Visits (j.context (m.check config).registry config.policy) j σ (.field s e x)
      site t) :
    ∃ u, (m.check config).findings.exprType e = some u ∧
      (u = .error ∧ ¬ (m.Complete ∧ ∀ f ∈ m.functions, f.variadic = true → f.params ≠ []) ∨
        (∃ f, (m.check config).registry.fieldType u x = some f) ∨
        ∃ p q, e.path? = some p ∧ p.startsWith q = true ∧ q ∈ j.body.tested ∧
          p.field x ∈ j.body.tested) := by
  by_cases hm : m.Complete ∧ ∀ f ∈ m.functions, f.variadic = true → f.params ≠ []
  · -- Nothing is missing, so no type of the body is the error type.
    have hclean := clean_registered hm.1 hm.2 h
    have hholds := BodyJob.holds_ofModule hclean.registry.supplies m.number.1 j hj
    have L : BodyLaws (j.context (m.check config).registry config.policy) Ty.ErrorFree :=
      hclean.registry.laws hholds.ret
    obtain ⟨u, hu, hgood, hfield⟩ := receiver_of_visits h hj L hholds.param
      (.inl (BodyJob.complete_of_mem_ofModule hm.1.number hj)) hn
    exact ⟨u, hu, .inr (hfield.resolve_left hgood.node)⟩
  · have L : BodyLaws (j.context (m.check config).registry config.policy) (fun _ => True) :=
      ⟨TypeLaws.trivial _, fun _ _ _ => True.intro⟩
    obtain ⟨u, hu, -, hfield⟩ :=
      receiver_of_visits h hj L (fun _ _ => True.intro) (.inr True.intro) hn
    exact ⟨u, hu, hfield.imp_left fun heq => ⟨heq, hm⟩⟩

def joinsFields : Module where
  structs := [holder "A", holder "B"]
  functions := [⟨"main", [],
    [⟨"b", .named "bool" [], false, {}⟩, ⟨"x", .union [.named "A" [], .named "B" []], false, {}⟩],
    false, none, .block {} [.expr {} (.cond {} (.ident {} "b") (arm "A") (arm "B")),
      .expr {} (.field {} (.ident {} "x") "f")] .missing, {}⟩]
where
  holder (x : String) : StructItem := ⟨x, [], [⟨"f", .union [.named "i32" [], .named "string" []], {}⟩], [], {}⟩
  -- Return unless the value is of the type.
  only (e : Expr) (ty : String) : Stmt :=
    .expr {} (.cond {} (.isTest {} e (.named ty []) true) (.ret {} .missing) .missing)
  arm (ty : String) : Expr :=
    .block {} [only (.ident {} "x") ty, only (.field {} (.ident {} "x") "f") "i32"] .missing

theorem visits_joinsFields : ∃ j ∈ BodyJob.ofModule (joinsFields.check {}).registry joinsFields.number.1,
    (joinsFields.check {}).Visits (j.context (joinsFields.check {}).registry .recover) j j.scope.child
      (.field ⟨23, {}⟩ (.ident ⟨22, {}⟩ "x") "f") ⟨23, {}⟩ (.prim .i32) := by
  have hsome : (BodyJob.ofModule (joinsFields.check {}).registry joinsFields.number.1).head?.isSome = true := by
    decide +kernel
  obtain ⟨j, hj⟩ := Option.isSome_iff_exists.mp hsome
  have hmem := List.mem_of_head? hj
  obtain ⟨f, hf, hjob⟩ : ∃ f ∈ joinsFields.number.1.functions,
      BodyJob.ofFunction (joinsFields.check {}).registry f = some j := by
    rcases List.mem_append.mp hmem with h | h
    · exact List.mem_filterMap.mp h
    · cases h
  refine ⟨j, hmem, ⟨?_, rfl, by decide +kernel⟩⟩
  rw [(BodyJob.body_of_ofFunction hjob).1, List.mem_singleton.mp hf]
  refine .inside (List.mem_append_left _ ?_) (.here _ _)
  exact List.mem_append_right _ (List.mem_singleton.mpr rfl)

theorem hasField_joinsFields : (joinsFields.check {}).errors = [] ∧
    ∃ j ∈ BodyJob.ofModule (joinsFields.check {}).registry joinsFields.number.1,
      ∃ u, (joinsFields.check {}).findings.exprType (.ident ⟨22, {}⟩ "x") = some u ∧
        (joinsFields.check {}).registry.fieldType u "f" = none ∧
        ∃ q, Path.startsWith ⟨"x", []⟩ q = true ∧ q ∈ j.body.tested ∧ ⟨"x", ["f"]⟩ ∈ j.body.tested := by
  have h : (joinsFields.check {}).errors = [] := by decide +kernel
  have htype : (joinsFields.check {}).findings.typeOf 22 = some (.union [.named 0 [], .named 1 []]) := by
    decide +kernel
  obtain ⟨j, hj, hn⟩ := visits_joinsFields
  obtain ⟨u, hu, hfield⟩ := hasField_check joinsFields {} h hj hn
  cases htype.symm.trans hu
  rcases hfield with ⟨hfield, -⟩ | ⟨f, hfield⟩ | ⟨p, q, hp, hq, hqt, hpt⟩
  · cases hfield
  · cases hfield
  · cases hp
    exact ⟨h, j, hj, _, hu, rfl, q, hq, hqt, hpt⟩

end Module

end TypeFlow
