import TypeFlow.Proofs.Check.InDomains
import TypeFlow.Proofs.Check.Listing
import TypeFlow.Proofs.Infer.Evaluation

namespace TypeFlow

namespace Register

theorem preserves_bounded_const (item : ConstItem) : Preserves (·.registry.Bounded) (fun _ => True) (const item) := by
  refine preserves_registry_const item fun _ _ _ _ hr hadd => ?_
  obtain ⟨-, rfl⟩ := Registry.eq_of_addConst hadd
  exact List.forall_mem_append.mpr ⟨hr, List.forall_mem_singleton.mpr fun _ => Expr.bounded_constValue hr⟩

theorem preserves_bounded_consts (items : List ConstItem) :
    Preserves (·.registry.Bounded) (fun _ => True) (consts items) := by
  induction items with
  | nil => exact .pure True.intro
  | cons item items ih => exact (preserves_bounded_const item).bind fun _ _ => ih

theorem consts_const (item : ConstItem) (s : Registration) : ∃ declared,
    ((const item).run s).2.consts =
      s.consts ++ [(constType item declared).after { registry := s.registry } { nextVar := s.nextVar }] := by
  unfold const
  extract_lets finish
  have hfinish (declared : Option Ty) (s : Registration) : ((finish declared).run s).2.consts =
      s.consts ++ [(constType item declared).after { registry := s.registry } { nextVar := s.nextVar }] := by
    show ((keep _ item.span item.name).run _).2.consts = _
    unfold keep
    split <;> rfl
  split
  · next w _ =>
    obtain ⟨t, ht, -⟩ := reads_resolve [] item.span w s rfl
    refine ⟨some t, ?_⟩
    rw [StateT.run_bind, StateT.run_map, ht]
    exact hfinish (some t) (s.fail _)
  · exact ⟨none, hfinish none s⟩

theorem mem_consts_run {items : List ConstItem} {s : Registration} {b : BodyState}
    (hb : b ∈ ((consts items).run s).2.consts) : b ∈ s.consts ∨
      ∃ before item after declared, items = before ++ item :: after ∧
        let t := ((consts before).run s).2
        b = (constType item declared).after { registry := t.registry } { nextVar := t.nextVar } := by
  induction items generalizing s with
  | nil => exact .inl hb
  | cons item items ih =>
    rcases ih (s := ((const item).run s).2) hb with hb | ⟨before, next, after, declared, rfl, hrun⟩
    · obtain ⟨declared, hconsts⟩ := consts_const item s
      rw [hconsts] at hb
      refine (List.mem_append.mp hb).imp_right fun hb => ?_
      exact ⟨[], item, items, declared, rfl, List.mem_singleton.mp hb⟩
    · exact .inr ⟨item :: before, next, after, declared, rfl, hrun⟩

theorem consts_of_yields {α : Type} {x : Register α} {A : Prop} {Q : α → Registration → Prop}
    (h : Yields (fun _ => True) [] (fun s => s.Clean (· ≠ .error) (fun _ => False) ∧ A) x Q) (s : Registration) :
    (x.run s).2.consts = s.consts := by
  obtain ⟨bs, hconsts, hbs⟩ := (h s).1.consts
  cases hbs
  rw [hconsts, List.append_nil]

end Register

namespace Module

variable {m : Module} {config : CheckConfig}

def prepared (m : Module) : Registration :=
  let structs := (Register.declareStructs m.structs).run {}
  let enums := (Register.declareEnums m.enums).run structs.2
  let interfaces := (Register.declareInterfaces m.interfaces).run enums.2
  ((Register.setGenerics interfaces.1 (m.interfaces.map (·.generics))).run
    ((Register.setGenerics structs.1 (m.structs.map (·.generics))).run
      ((Register.aliases m.aliases).run m.begun).2).2).2

def withConsts (m : Module) (items : List ConstItem) : Registration := ((Register.consts items).run m.prepared).2

theorem opened_withConsts (m : Module) : m.opened = m.withConsts m.consts := rfl

theorem constants_prepared (m : Module) : m.prepared.registry.consts = [] := by
  have haliases := Register.leaves_aliases (f := (·.consts))
    fun _ _ _ _ h => congrArg (·.consts) (Registry.eq_of_addAlias h).2
  have hgenerics := Register.leaves_setGenerics (f := (·.consts)) fun _ _ _ => rfl
  exact ((hgenerics _ _ _).trans ((hgenerics _ _ _).trans (haliases _ _))).trans m.blank_begun.constants

theorem consts_prepared (m : Module) : m.prepared.consts = [] := by
  have haliases := Register.consts_of_yields (A := True) (Register.tidy_aliases m.aliases)
  have hgenerics (ids : List (Option DeclId)) (gss : List (List GenericItem)) :=
    Register.consts_of_yields (x := Register.setGenerics ids gss) (Register.yields_setGenerics False.elim)
  exact ((hgenerics _ _ _).trans ((hgenerics _ _ _).trans (haliases _))).trans m.blank_begun.consts

theorem consts_registered (m : Module) : m.registered.consts = m.opened.consts := by
  have hstructs (ids : List (Option DeclId)) :=
    Register.consts_of_yields (A := True) (Register.tidy_structs ids m.structs)
  have henums (ids : List (Option DeclId)) :=
    Register.consts_of_yields (A := True) (Register.tidy_enums ids m.enums)
  have hfunctions := Register.consts_of_yields (Register.tidy_functions m.functions)
  have hmethods := Register.consts_of_yields (A := True) (Register.tidy_methods m.methods)
  rw [m.registered_opened]
  exact (hmethods _).trans ((hfunctions _).trans ((henums _ _).trans (hstructs _ _)))

theorem bounded_withConsts (m : Module) (items : List ConstItem) : (m.withConsts items).registry.Bounded := by
  refine (Register.preserves_bounded_consts items m.prepared fun e he => ?_).1
  rw [m.constants_prepared] at he
  cases he

theorem bounded_registered (m : Module) : m.registered.registry.Bounded := by
  have hconsts : m.registered.registry.consts = m.opened.registry.consts := congrArg (·.2.2) m.front_registered
  rw [Registry.Bounded, hconsts, m.opened_withConsts]
  exact m.bounded_withConsts m.consts

inductive Runs (m : Module) (config : CheckConfig) : BodyContext → BodyState → Prop
  | const {before after : List ConstItem} {item : ConstItem} (declared : Option Ty)
      (h : m.consts = before ++ item :: after) :
      Runs m config { registry := (m.withConsts before).registry }
        ((Register.constType item declared).after { registry := (m.withConsts before).registry }
          { nextVar := (m.withConsts before).nextVar })
  | body {j : BodyJob} (n : Nat) (h : j ∈ m.jobs) :
      Runs m config (j.context m.registered.registry config.policy) (j.run m.registered.registry config.policy n)

theorem exists_runs {b : BodyState} (hb : b ∈ m.registered.consts ++ m.states config) : ∃ c, m.Runs config c b := by
  rcases List.mem_append.mp hb with hb | hb
  · rw [m.consts_registered, m.opened_withConsts] at hb
    rcases Register.mem_consts_run hb with hb | ⟨before, item, after, declared, hsplit, rfl⟩
    · rw [m.consts_prepared] at hb
      cases hb
    · exact ⟨_, .const declared hsplit⟩
  · obtain ⟨j, hj, n, rfl⟩ := BodyJob.mem_runAll hb
    exact ⟨_, .body n hj⟩

theorem Runs.bounded {c : BodyContext} {b : BodyState} (h : m.Runs config c b) : c.registry.Bounded := by
  cases h with
  | const => exact m.bounded_withConsts _
  | body => exact m.bounded_registered

-- The values of constants are bounded, and so is all that is evaluated wherever a tree of the unit is checked.
theorem bounded_check (m : Module) (config : CheckConfig) :
    (∀ e ∈ (m.check config).registry.consts, ∀ v, e.2.value = some v → v.Bounded) ∧
      (∀ b ∈ m.number.1.registered.consts ++ m.number.1.states config, ∃ c, m.number.1.Runs config c b) ∧
      ∀ c b, m.number.1.Runs config c b → c.EvaluatesBounded :=
  ⟨m.number.1.bounded_registered, fun _ hb => exists_runs hb, fun _ _ h => BodyContext.evaluatesBounded h.bounded⟩

def extremes : Module where
  functions := [⟨"hold", [⟨"N", .const (.named "i64" []), {}⟩], [], false, none, .block {} [] .missing, {}⟩,
    ⟨"main", [], [], false, none, .call {} "hold" [.value (.neg {} (.ident {} "TOP"))] [], {}⟩]
  consts := [⟨"LEAST", some (.named "i64" []), .int {} Int64.minValue, {}⟩,
    ⟨"TOP", some (.named "i64" []), .neg {} (.ident {} "LEAST"), {}⟩]

theorem bounded_check_extremes :
    let R := extremes.number.1.registered.registry
    (("TOP", ⟨.prim .i64, some (.int (2 ^ 63)), {}⟩) ∈ (extremes.check {}).registry.consts ∧
        (ConstValue.int (2 ^ 63)).Bounded) ∧
      (∃ b ∈ extremes.number.1.registered.consts ++ extremes.number.1.states {}, ∃ c, extremes.number.1.Runs {} c b) ∧
      ∃ j ∈ extremes.number.1.jobs, (j.context R .recover).EvaluatesBounded ∧
        (Expr.neg {} (.ident {} "TOP")).valueIn 128 R {} = .ok (some (.int (-2 ^ 63))) := by
  intro R
  obtain ⟨hconsts, hbodies, hcontexts⟩ := bounded_check extremes {}
  have htop : ("TOP", ⟨.prim .i64, some (.int (2 ^ 63)), {}⟩) ∈ (extremes.check {}).registry.consts := by
    decide +kernel
  obtain ⟨b, hb⟩ : ∃ b, b ∈ extremes.number.1.registered.consts ++ extremes.number.1.states {} :=
    List.exists_mem_of_length_pos (by decide +kernel)
  obtain ⟨j, hj⟩ : ∃ j, j ∈ extremes.number.1.jobs := List.exists_mem_of_length_pos (by decide +kernel)
  have hmain : (j.context R .recover).EvaluatesBounded := hcontexts _ _ (.body 0 hj)
  have hvalue : (Expr.neg {} (.ident {} "TOP")).constValue R {} = some (.int (-2 ^ 63)) := by decide +kernel
  exact ⟨⟨htop, hconsts _ htop _ rfl⟩, ⟨b, hb, hbodies b hb⟩, j, hj, hmain, hvalue ▸ hmain.exact _ {}⟩

end Module

end TypeFlow
