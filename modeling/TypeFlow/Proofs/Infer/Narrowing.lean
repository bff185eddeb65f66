import TypeFlow.Proofs.Check.Registration
import TypeFlow.Proofs.Infer.Conditions

namespace TypeFlow

theorem Registry.closes_of_sound {r : Registry} {p : Prop} {o : Outline} (h : r.Sound p o) {v : Option Ty}
    (hv : IsTag v) (hw : ∀ t, v = some t → r.Declares t) : r.Closes v := by
  intro t ms hms hinh
  unfold exhaustiveMembers at hms
  split at hms
  · cases hms
    exact (inhabits_union hv).mp hinh
  · next i =>
    obtain ⟨u, rfl, himpl⟩ := (inhabits_interface hv).mp hinh
    split at hms
    · next ds hkind =>
      unfold implements at himpl
      split at himpl
      · next d args =>
        obtain ⟨info, hinfo, -, hlength⟩ := hw _ rfl
        have hlisted := List.contains_iff_mem.mp himpl
        unfold listedInterfaces at hlisted
        rw [hinfo] at hlisted
        obtain ⟨t, ht, hsubst⟩ := List.mem_map.mp hlisted
        obtain ⟨j, ts, es, rfl, hes, hmem⟩ := h.listed hinfo ht
        obtain ⟨us, hus⟩ := Ty.substParams_interface args j ts
        cases hsubst.symm.trans hus
        have hds : es = ds := by simpa [implementors, hkind] using hes.symm
        obtain ⟨m, hm, hplain⟩ := exists_mem_of_mapM hms (hds ▸ hmem)
        unfold plainDecl at hplain
        rw [hinfo] at hplain
        dsimp only at hplain
        split at hplain
        · next hempty =>
          cases hplain
          rw [List.isEmpty_iff.mp hempty] at hlength
          rw [List.length_eq_zero_iff.mp hlength]
          exact ⟨_, hm, .same⟩
        · cases hplain
      · cases himpl
    · cases hms
  · cases hms

structure Layer.Describes (r : Registry) (ρ : Valuation) (l : Layer) : Prop where
  consistent : l.Consistent r ρ
  covered : l.Covered r ρ

theorem Infer.Proves.describes {c : BodyContext} {ρ : Valuation} {ps : List Path} {l : Layer} {P : Prop}
    {fs : List FlowFact} (h : Proves c ρ ps l P fs) (hP : P) (hc : ∀ p, c.registry.Closes (ρ.tag p))
    (hl : l.Regular ps) (hdesc : l.Describes c.registry ρ)
    (hd : ∀ f ∈ fs, f.declared.Testable ∧ c.registry.Inhabits (ρ.tag f.path) f.declared) :
    (l.applyAll c.registry fs).Describes c.registry ρ := by
  have hregular := h.regular hl fun f hf => (hd f hf).1
  have hproven : ∀ f ∈ fs, Layer.Proven c.registry ρ f :=
    fun f hf => ⟨(hd f hf).2, h.holds hP f hf⟩
  obtain ⟨h₁, h₂⟩ :=
    Layer.consistent_applyAll hc hl hdesc.consistent hdesc.covered hregular hproven
  exact ⟨h₁, h₂⟩

theorem describes_push_condition {m : Module} {c : BodyContext}
    (hc : c.registry = ((Register.declarations m).run {}).2.registry) {e : Expr}
    (he : e.isCondition = true) {s : BodyState}
    (hl : ∀ n ∈ s.flow.top.entries, n.2.ty.Plain ∨ n.2.ty = n.2.declared)
    (hd : ∀ n ∈ s.flow.top.entries, n.1 ∈ e.tested → n.2.declared.Testable) {ρ : Valuation}
    (hρ : ∀ p t, ρ.tag p = some t → t.Everywhere c.registry.Declares)
    (htop : s.flow.top.Describes c.registry ρ) {facts : Facts} {t : BodyState}
    (hfacts : (Infer.condition e.asChild).value c s = facts)
    (ht : (Infer.condition e.asChild).after c s = t)
    (hdeclared : ∀ f ∈ facts.whenTrue ++ facts.whenFalse,
      f.declared.Testable ∧ c.registry.Inhabits (ρ.tag f.path) f.declared) :
    (e.Holds c ρ → (t.flow.push c.registry facts.whenTrue).top.Describes c.registry ρ) ∧
      (¬ e.Holds c ρ → (t.flow.push c.registry facts.whenFalse).top.Describes c.registry ρ) := by
  obtain ⟨o, ho⟩ := Register.sound_declarations m
  have hsound : c.registry.Sound m.InOrder o := hc ▸ ho.registry
  have hclosed (p : Path) : c.registry.Closes (ρ.tag p) :=
    Registry.closes_of_sound hsound (ρ.isTag p) fun u hu => (hρ p u hu).node
  have hregular : s.flow.top.Regular e.tested := fun n hn => ⟨hl n hn, hd n hn⟩
  obtain ⟨-, hflow, hdecides⟩ := Infer.checks_condition he (fun _ hp => hp) s.flow s rfl rfl
  obtain ⟨h₁, h₂⟩ := List.forall_mem_append.mp hdeclared
  subst hfacts ht
  rw [hflow]
  exact ⟨fun h => hdecides.whenTrue.describes h hclosed hregular htop h₁,
    fun h => hdecides.whenFalse.describes h hclosed hregular htop h₂⟩

def petUnit : Module where
  structs := [⟨"Cat", [], [], [], {}⟩, ⟨"Dog", [], [], [], {}⟩]

def petContext : BodyContext where
  registry := ((Register.declarations petUnit).run {}).2.registry

def pet : Ty := .option (.union [.named 0 [], .named 1 []])

def petState : BodyState where
  scope := ⟨[("x", ⟨pet, false⟩), ("y", ⟨pet, false⟩)], []⟩
  flow := ⟨⟨[(⟨"y", []⟩, ⟨pet, .named 1 [], [.named 0 []]⟩)]⟩, []⟩

def isDog : Expr :=
  .binary {} .and (.noneCheck {} (.ident {} "x") true) (.isTest {} (.ident {} "x") (.named "Cat" []) true)

def dog : Valuation where
  tag _ := some (.named 1 [])
  isTag := by
    rintro p _ ⟨⟩
    rfl

theorem describes_push_isDog : isDog.Holds petContext dog ∧
    (((Infer.condition isDog.asChild).after petContext petState).flow.push petContext.registry
      ((Infer.condition isDog.asChild).value petContext petState).whenTrue).top.Describes
      petContext.registry dog := by
  have hplain : (Ty.union [.named 0 [], .named 1 []]).Plain :=
    (Ty.plain_union_iff (by decide)).mpr (by decide)
  have hdog : petContext.registry.Inhabits (some (.named 1 [])) pet :=
    .present (.member (t := .named 1 []) (by simp) .same)
  have hcat : ¬ petContext.registry.Inhabits (some (.named 1 [])) (.named 0 []) := by
    intro h
    cases h
  have hdeclares : (Ty.named 1 []).Everywhere petContext.registry.Declares := by
    refine .intro ⟨⟨"Dog", [], .struct [] [], {}⟩, ?_, rfl, rfl⟩ (List.forall_mem_nil _)
    decide +kernel
  have hresolve : petContext.registry.resolve [] (.named "Cat" []) = .ok (.named 0 []) := rfl
  have hfacts : (Infer.condition isDog.asChild).value petContext petState =
      ⟨[⟨⟨"x", []⟩, pet, .notNone⟩, ⟨⟨"x", []⟩, pet, .isNot (.named 0 [])⟩], []⟩ := by decide +kernel
  have hholds : isDog.Holds petContext dog := by
    refine ⟨by simp [Expr.Holds, Expr.path?, dog], iff_of_false ?_ Bool.noConfusion⟩
    rintro ⟨p, t, -, ht, hinh⟩
    cases hresolve.symm.trans ht
    exact hcat hinh
  refine ⟨hholds, (describes_push_condition rfl rfl ?_ ?_ ?_ ⟨?_, ?_⟩ rfl rfl ?_).1 hholds⟩
  · exact List.forall_mem_singleton.mpr (.inl (Ty.plain_named 1 []))
  · exact List.forall_mem_singleton.mpr fun _ => .inr ⟨_, rfl, hplain⟩
  · rintro p _ ⟨⟩
    exact hdeclares
  · exact List.forall_mem_singleton.mpr ⟨.same, List.forall_mem_singleton.mpr hcat⟩
  · exact List.forall_mem_singleton.mpr hdog
  · rw [hfacts]
    simp only [List.append_nil, List.forall_mem_cons]
    exact ⟨⟨.inr ⟨_, rfl, hplain⟩, hdog⟩, ⟨.inr ⟨_, rfl, hplain⟩, hdog⟩, List.forall_mem_nil _⟩
end TypeFlow
