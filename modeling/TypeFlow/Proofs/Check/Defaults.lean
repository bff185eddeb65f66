import TypeFlow.Proofs.Check.Parameters
import TypeFlow.Proofs.Solve.Gathering

namespace TypeFlow

namespace Generics

variable {out : Nat → Prop} {base n : Nat} {all gs : Generics} {done tys : List Ty}

def LooksBack (gs : Generics) (out : Nat → Prop) : Prop :=
  ∀ ⦃k p d⦄, out k → gs[k]? = some p → p.default = some d → d.ParamsBelow k

def Provides (out : Nat → Prop) (k : Nat) (p : GenericParam) (done : List Ty) (t : Ty) : Prop :=
  ¬ out k ∧ t.flags.isClosed = true ∨ out k ∧ ∃ d, p.default = some d ∧ t = d.substParams done

theorem isClosed_default_iff {d : Ty} (hfree : d.VarFree) (hd : ∀ t ∈ done, t.flags.isClosed = true) :
    (d.substParams done).flags.isClosed = true ↔ d.ParamsBelow done.length := by
  have hclosed : ∀ t ∈ done, t.VarFree ∧ t.ParamFree := fun t ht => Ty.isClosed_iff.mp (hd t ht)
  rw [Ty.isClosed_iff, and_iff_right (hfree.substParams fun t ht => (hclosed t ht).1)]
  exact Ty.paramFree_substParams_iff fun t ht => (hclosed t ht).2

theorem Provides.isClosed_iff {k : Nat} {p : GenericParam} {t : Ty} (h : Provides out k p done t)
    (hfree : ∀ d, p.default = some d → d.VarFree) (hd : ∀ t ∈ done, t.flags.isClosed = true) :
    t.flags.isClosed = true ↔ ∀ d, out k → p.default = some d → d.ParamsBelow done.length := by
  rcases h with ⟨hnot, ht⟩ | ⟨hout, d, hdefault, rfl⟩
  · exact iff_of_true ht fun _ hout => absurd hout hnot
  · rw [isClosed_default_iff (hfree d hdefault) hd]
    refine ⟨fun h d' _ hdefault' => ?_, fun h => h d hout hdefault⟩
    cases hdefault.symm.trans hdefault'
    exact h

theorem Fills.isClosed_iff (h : Fills (Provides out) n gs done tys) (hn : n = base + done.length)
    (hgs : all.drop done.length = gs) (hfree : ∀ p ∈ all, ∀ d, p.default = some d → d.VarFree)
    (hd : ∀ t ∈ done, t.flags.isClosed = true) :
    (∀ t ∈ tys, t.flags.isClosed = true) ↔ ∀ ⦃k p d⦄, done.length ≤ k → out (base + k) →
      all[k]? = some p → p.default = some d → d.ParamsBelow k := by
  induction h with
  | nil =>
    refine iff_of_true hd fun k p d hk _ hp _ => ?_
    have hlt := (List.getElem?_eq_some_iff.mp hp).1
    have hle := List.drop_eq_nil_iff.mp hgs
    omega
  | @cons n p gs done tys t head tail ih =>
    obtain ⟨hp, hrest⟩ := of_drop_eq_cons hgs
    have hstep := head.isClosed_iff (hfree p (List.mem_of_getElem? hp)) hd
    have hlength : (done ++ [t]).length = done.length + 1 := List.length_append
    have hiff (ht : t.flags.isClosed = true) := ih (by rw [hlength, hn, Nat.add_assoc]) (by rw [hlength, hrest])
      (List.forall_mem_append.mpr ⟨hd, List.forall_mem_singleton.mpr ht⟩)
    constructor
    · intro hall k q d hk hout hq hdefault
      have ht : t.flags.isClosed = true := hall t (tail.isPrefix.subset (by simp))
      rcases Nat.eq_or_lt_of_le hk with rfl | hlt
      · cases hp.symm.trans hq
        exact hstep.mp ht d (hn ▸ hout) hdefault
      · exact (hiff ht).mp hall (hlength ▸ hlt) hout hq hdefault
    · intro hall
      have ht : t.flags.isClosed = true :=
        hstep.mpr fun d hout hdefault => hall (Nat.le_refl _) (hn ▸ hout) hp hdefault
      exact (hiff ht).mpr fun k q d hk => hall (by omega)

theorem Fills.isClosed_iff_looksBack (h : Fills (Provides out) base gs [] tys)
    (hfree : ∀ p ∈ gs, ∀ d, p.default = some d → d.VarFree) :
    (∀ t ∈ tys, t.flags.isClosed = true) ↔ gs.LooksBack fun k => out (base + k) := by
  rw [h.isClosed_iff rfl rfl hfree (List.forall_mem_nil _)]
  exact ⟨fun hall _ _ _ => hall (Nat.zero_le _), fun hall _ _ _ _ hout => hall hout⟩

end Generics

open Generics (Fills Provides)

theorem isClosed_const (v : ConstValue) : (Ty.const v).flags.isClosed = true :=
  Ty.isClosed_iff.mpr ⟨.intro nofun nofun, .intro nofun nofun⟩

theorem ExplicitArg.Binds.provides {args : List ExplicitArg} {k : Nat} {p : GenericParam} {done : List Ty} {t : Ty}
    (hargs : ∀ a ∈ args, ∀ t, a = .type t → t.flags.isClosed = true) (h : Binds args k p done t) :
    Provides (args.length ≤ ·) k p done t := by
  rcases h with ⟨a, b, hget, hb, rfl⟩ | hdefault
  · have hlt : k < args.length := (List.getElem?_eq_some_iff.mp hget).1
    have hclosed := @TypeClosure.bindExplicit (·.flags.isClosed = true) p a b isClosed_const
      (hargs a (List.mem_of_getElem? hget)) hb
    exact .inl ⟨Nat.not_le_of_lt hlt, hclosed.1⟩
  · exact .inr hdefault

namespace Registry

variable {r : Registry}

theorem isClosed_of_constArg {w : Written} {t : Ty} (h : r.constArg [] w = some t) :
    t.flags.isClosed = true := by
  unfold constArg at h
  split at h
  · cases h
  · obtain ⟨info, -, h⟩ := Option.bind_eq_some_iff.mp h
    obtain ⟨v, -, rfl⟩ := Option.map_eq_some_iff.mp h
    exact isClosed_const v

theorem fillDefaults_fills {gs : Generics} {done : List Ty} {n : Nat} (hn : n ≤ done.length)
    (hr : gs.required ≤ 0) : Fills (Provides (n ≤ ·)) done.length gs done (fillDefaults gs done) := by
  induction gs generalizing done with
  | nil => exact .nil
  | cons p gs ih =>
    obtain ⟨hrest, d, hdefault⟩ := Generics.default_of_required hr
    have hnext (t : Ty) : (done ++ [t]).length = done.length + 1 := List.length_append
    have htail (t : Ty) : Fills (Provides (n ≤ ·)) (done.length + 1) gs (done ++ [t])
        (fillDefaults gs (done ++ [t])) := hnext t ▸ ih (by rw [hnext]; omega) hrest
    rw [fillDefaults, hdefault]
    exact .cons (.inr ⟨hn, d, hdefault, rfl⟩) (htail _)

theorem resolveArgs_fills {x : String} {ws : List Written} {gs : Generics} {done tys : List Ty} {n : Nat}
    (hn : ws.length = n - done.length) (hr : gs.required ≤ ws.length)
    (hws : ∀ w ∈ ws, ∀ t, r.resolve [] w = .ok t → t.flags.isClosed = true)
    (h : r.resolveArgs [] x ws gs done = .ok tys) : Fills (Provides (n ≤ ·)) done.length gs done tys := by
  induction ws generalizing gs done with
  | nil =>
    rw [resolveArgs] at h
    cases h
    exact fillDefaults_fills (Nat.sub_eq_zero_iff_le.mp hn.symm) hr
  | cons w ws ih =>
    cases gs with
    | nil =>
      rw [resolveArgs] at h
      cases h
      exact .nil
    | cons p gs =>
      obtain ⟨hw, hws⟩ := List.forall_mem_cons.mp hws
      have hrest := Generics.required_tail hr
      rw [List.length_cons] at hn
      have hgiven {t : Ty} (ht : t.flags.isClosed = true)
          (h : r.resolveArgs [] x ws gs (done ++ [t]) = .ok tys) :
          Fills (Provides (n ≤ ·)) done.length (p :: gs) done tys := by
        have htail := ih (by rw [List.length_append, List.length_singleton]; omega) hrest hws h
        rw [List.length_append] at htail
        exact .cons (.inl ⟨by omega, ht⟩) htail
      rw [resolveArgs] at h
      split at h
      · split at h
        · next t ht => exact hgiven (isClosed_of_constArg ht) h
        · cases h
      · obtain ⟨t, ht, h⟩ := exists_of_bind_ok h
        exact hgiven (hw t ht) h

structure ClosedIn (r : Registry) (t : Ty) : Prop where
  wellFormed : r.outline.WellFormed t
  paramFree : t.ParamFree

theorem ClosedIn.isClosed {t : Ty} (h : r.ClosedIn t) : t.flags.isClosed = true :=
  Ty.isClosed_iff.mpr ⟨Outline.varFree_of_wellFormed h.wellFormed, h.paramFree⟩

theorem ClosedIn.part {t u : Ty} (h : r.ClosedIn t) (hu : u ∈ t.parts) : r.ClosedIn u :=
  ⟨h.wellFormed.part hu, h.paramFree.part hu⟩

theorem ClosedIn.interfacesOf {p : Prop} {o : Outline} (hr : r.Sound p o)
    (hlisted : ∀ d ∈ r.decls, ∀ t ∈ d.implements, t.ParamsBelow d.generics.length) {t i : Ty}
    (h : r.ClosedIn t) (hi : i ∈ r.interfacesOf t) : r.ClosedIn i := by
  cases t <;> simp only [Registry.interfacesOf, List.not_mem_nil, List.mem_singleton] at hi
  case interface d args => exact hi ▸ h
  case named d args =>
    obtain ⟨u, hu, rfl⟩ := List.mem_map.mp hi
    obtain ⟨s, hs, -, hlength⟩ := h.wellFormed.node
    cases hinfo : r.decl? d with
    | none => simp [hinfo] at hu
    | some info =>
      rw [hinfo] at hu
      cases (getElem?_outline hinfo).symm.trans hs
      have hmem : info ∈ r.decls := List.mem_of_getElem? hinfo
      have harity : args.length = info.generics.length := hlength.trans info.arity_shape
      have hwritten := ((hr.decl info hmem).listed u hu).wellFormed
      rw [← hr.outline] at hwritten
      have hargs : ∀ a ∈ args, a.ParamFree := fun a ha => h.paramFree.part ha
      refine ⟨Outline.byHead_admits.substParams hwritten fun a ha => h.wellFormed.part ha, ?_⟩
      rw [Ty.paramFree_substParams_iff hargs, harity]
      exact hlisted info hmem u hu

theorem isClosed_of_gather {p : Prop} {o : Outline} (hr : r.Sound p o)
    (hlisted : ∀ d ∈ r.decls, ∀ t ∈ d.implements, t.ParamsBelow d.generics.length) {op : Opening}
    {eqs : List Equation} (heqs : ∀ e ∈ eqs, r.ClosedIn e.actual) {s : Solution} (h : r.gather op eqs = .ok s)
    {v : Nat} {t : Ty} (ht : s.get v = some t) : t.flags.isClosed = true := by
  obtain ⟨e, he, hl⟩ := exists_of_mem_heard (((gather_ok h).2 v t).mp ht)
  have hargs {d : DeclId} {u : Ty} {as : List Ty} (hu : r.ClosedIn u) (has : r.interfaceArgs d u = some as) :
      ∀ a ∈ as, r.ClosedIn a :=
    fun _ => (hu.interfacesOf hr hlisted (mem_interfacesOf_of_interfaceArgs has)).part
  exact (good_of_mem_lessons ClosedIn.part hargs (heqs e he) hl).isClosed

section ArgumentLists

variable {b : Bounds} {gs : Generics} {i : Instantiation}
  (hfree : ∀ g ∈ gs, ∀ d, g.default = some d → d.VarFree)

include hfree

theorem isClosed_solveExplicit_iff {args : List ExplicitArg}
    (hargs : ∀ a ∈ args, ∀ t, a = .type t → t.flags.isClosed = true)
    (h : r.solveExplicit b gs args = .ok i) :
    (∀ t ∈ i.typeArgs, t.flags.isClosed = true) ↔ gs.LooksBack (args.length ≤ ·) := by
  have hfills := (solveExplicit_ok h).2.1.imp fun hbinds => hbinds.provides hargs
  rw [hfills.isClosed_iff_looksBack hfree]
  simp only [Nat.zero_add]

theorem isClosed_solveInferred_iff {base : Nat} {eqs : List Equation} {s : Solution}
    (hs : r.gather ⟨base, gs⟩ eqs = .ok s) (hclosed : ∀ {v t}, s.get v = some t → t.flags.isClosed = true)
    (h : r.solveInferred b gs base eqs = .ok i) :
    (∀ t ∈ i.typeArgs, t.flags.isClosed = true) ↔ gs.LooksBack fun k => s.get (base + k) = none := by
  obtain ⟨s', tys, hs', hfills, -, rfl⟩ := solveInferred_eq_ok_iff.mp h
  cases hs.symm.trans hs'
  rw [Instantiation.typeArgs_ofTypes (hfills.length.trans (Nat.zero_add _))]
  have hprovides : gs.Fills (Provides fun v => s.get v = none) base [] tys := by
    refine hfills.imp fun ⟨_, _, hread⟩ => ?_
    rcases hread with hget | hdefault
    · exact .inl ⟨by simp [hget], hclosed hget⟩
    · exact .inr hdefault
  exact hprovides.isClosed_iff_looksBack hfree

end ArgumentLists

theorem isClosed_resolve_iff {x : String} {ws : List Written} {d : DeclId} {info : DeclInfo} {t : Ty}
    (hfree : ∀ g ∈ info.generics, ∀ d, g.default = some d → d.VarFree)
    (hx : builtinType x = none) (hd : r.typeDef x = some (.decl d)) (hinfo : r.decl? d = some info)
    (hws : ∀ w ∈ ws, ∀ u, r.resolve [] w = .ok u → u.flags.isClosed = true)
    (h : r.resolve [] (.named x ws) = .ok t) :
    (∀ a ∈ t.parts, a.flags.isClosed = true) ↔ info.generics.LooksBack (ws.length ≤ ·) := by
  rw [resolve, show Generics.find [] x = none from rfl] at h
  dsimp only at h
  rw [hx, hd] at h
  dsimp only at h
  rw [hinfo] at h
  dsimp only at h
  split at h
  · next hcount =>
    obtain ⟨args, hargs, h⟩ := exists_of_bind_ok h
    cases h
    rw [DeclInfo.parts_instantiate]
    have hrequired := of_decide_eq_true (Bool.and_eq_true_iff.mp hcount).1
    have hfills := resolveArgs_fills (n := ws.length) rfl hrequired hws hargs
    refine (hfills.isClosed_iff_looksBack hfree).trans ?_
    simp
  · cases h

def genericLists (r : Registry) : List Generics :=
  r.decls.map (·.generics) ++ r.functions.map (·.generics)

theorem sound_of_mem_genericLists {p : Prop} {o : Outline} (hr : r.Sound p o) {gs : Generics}
    (h : gs ∈ r.genericLists) : gs.Sound p o := by
  rcases List.mem_append.mp h with h | h
  · obtain ⟨d, hd, rfl⟩ := List.mem_map.mp h
    exact (hr.decl d hd).generic
  · obtain ⟨sig, hsig, rfl⟩ := List.mem_map.mp h
    exact (hr.function sig hsig).2

theorem varFree_default {p : Prop} {o : Outline} (hr : r.Sound p o) {gs : Generics} (h : gs ∈ r.genericLists) :
    ∀ g ∈ gs, ∀ d, g.default = some d → d.VarFree := by
  intro g hg d hd
  obtain ⟨k, hk⟩ := List.getElem?_of_mem hg
  exact Outline.varFree_of_wellFormed ((sound_of_mem_genericLists hr h).default hk hd).wellFormed

end Registry

theorem Outline.Typed.paramsBelow {o : Outline} {p : Prop} {ps : List Ty} {t : Ty} (h : o.Typed p ps t) (hp : p)
    (hps : Ty.Positioned ps) : t.ParamsBelow ps.length := by
  refine h.imp fun u hu x i heq => hps.lt_length (x := x) ?_
  exact heq ▸ hu.2 hp x i heq

namespace Module

open Registry

theorem looksBack_check (m : Module) (config : CheckConfig)
    (hdefaults : ∀ gs ∈ m.genericLists, GenericItem.DefaultsInOrder gs)
    (hconsts : ∀ gs ∈ m.genericLists, GenericItem.ConstsPlain gs) :
    (∀ gs ∈ (m.check config).registry.genericLists, gs.LooksBack fun _ => True) ∧
      ∀ d ∈ (m.check config).registry.decls, ∀ t ∈ d.implements, t.ParamsBelow d.generics.length := by
  have horder : m.number.1.InOrder := inOrder_number hdefaults hconsts
  obtain ⟨o, hsound⟩ := m.number.1.sound_registered
  have hr : (m.check config).registry.Sound m.number.1.InOrder o := hsound.registry
  constructor
  · intro gs hgs k p d _ hp hdefault
    have hsound := sound_of_mem_genericLists hr hgs
    have htyped := hsound.default hp hdefault
    have hbelow := htyped.paramsBelow horder (hsound.positioned.take k)
    exact hbelow.imp fun u hu x i heq => Nat.lt_of_lt_of_le (hu x i heq) (List.length_take_le k _)
  · intro d hd t ht
    have htyped := (hr.decl d hd).listed t ht
    rw [← d.generics.length_tys]
    exact htyped.paramsBelow horder (hr.decl d hd).generic.positioned

theorem closed_arguments_iff (m : Module) (config : CheckConfig) :
    let r := (m.check config).registry
    (∀ {x ws d info t}, builtinType x = none → r.typeDef x = some (.decl d) → r.decl? d = some info →
      (∀ w ∈ ws, ∀ u, r.resolve [] w = .ok u → u.flags.isClosed = true) →
      r.resolve [] (.named x ws) = .ok t →
        ((∀ a ∈ t.parts, a.flags.isClosed = true) ↔ info.generics.LooksBack (ws.length ≤ ·))) ∧
    ∀ gs ∈ r.genericLists, ∀ b,
      (∀ {args i}, (∀ a ∈ args, ∀ t, a = .type t → t.flags.isClosed = true) →
        r.solveExplicit b gs args = .ok i →
          ((∀ t ∈ i.typeArgs, t.flags.isClosed = true) ↔ gs.LooksBack (args.length ≤ ·))) ∧
      ((∀ d ∈ r.decls, ∀ t ∈ d.implements, t.ParamsBelow d.generics.length) →
        ∀ {base eqs s i}, (∀ e ∈ eqs, r.outline.WellFormed e.actual ∧ e.actual.flags.isClosed = true) →
          r.gather ⟨base, gs⟩ eqs = .ok s → r.solveInferred b gs base eqs = .ok i →
            ((∀ t ∈ i.typeArgs, t.flags.isClosed = true) ↔ gs.LooksBack fun k => s.get (base + k) = none)) := by
  intro r
  obtain ⟨o, hsound⟩ := m.number.1.sound_registered
  have hr : r.Sound m.number.1.InOrder o := hsound.registry
  refine ⟨fun {x ws d info t} hx hd hinfo hws h => ?_, fun gs hgs b => ⟨fun hargs h => ?_, ?_⟩⟩
  · have hgs : info.generics ∈ r.genericLists :=
      List.mem_append_left _ (List.mem_map_of_mem (List.mem_of_getElem? hinfo))
    exact isClosed_resolve_iff (varFree_default hr hgs) hx hd hinfo hws h
  · exact isClosed_solveExplicit_iff (varFree_default hr hgs) hargs h
  · intro hlisted base eqs s i heqs hs h
    have hactual : ∀ e ∈ eqs, r.ClosedIn e.actual := fun e he =>
      ⟨(heqs e he).1, (Ty.isClosed_iff.mp (heqs e he).2).2⟩
    exact isClosed_solveInferred_iff (varFree_default hr hgs) hs
      (fun ht => isClosed_of_gather hr hlisted hactual hs ht) h

def lagging : Module where
  structs := [⟨"Pair", [⟨"A", .type [] none, {}⟩, ⟨"B", .type [] (some (.option (.named "A" []))), {}⟩], [], [], {}⟩]
  functions := [⟨"lag", [⟨"T", .type [] (some (.named "U" [])), {}⟩, ⟨"U", .type [] none, {}⟩],
    [⟨"x", .named "U" [], false, {}⟩], false, none, .block {} [] .missing, {}⟩]

def lagGenerics : Generics := [⟨"T", 0, .type [] (some (.param "U" 1))⟩, ⟨"U", 1, .type [] none⟩]

-- The parameter `U` stays among the arguments although it is bound itself.
theorem closed_arguments_lagging :
    let r := (lagging.check {}).registry
    (lagging.check {}).errors = [] ∧
    r.resolve [] (.named "Pair" [.named "i32" []]) = .ok (.named 0 [.prim .i32, .option (.prim .i32)]) ∧
    (∃ info, r.decl? 0 = some info ∧ info.generics.LooksBack (1 ≤ ·)) ∧
    r.solveInferred [] lagGenerics 0 [{ pattern := .param "U" 1, actual := .prim .i32 }] =
      .ok (.ofTypes lagGenerics [.param "U" 1, .prim .i32]) ∧
    ∃ s, r.gather ⟨0, lagGenerics⟩ [{ pattern := .param "U" 1, actual := .prim .i32 }] = .ok s ∧
      ¬ lagGenerics.LooksBack fun k => s.get (0 + k) = none := by
  intro r
  obtain ⟨hresolve, hsolve⟩ := closed_arguments_iff lagging {}
  have hpair : r.resolve [] (.named "Pair" [.named "i32" []]) =
      .ok (.named 0 [.prim .i32, .option (.prim .i32)]) := by rfl
  obtain ⟨info, hinfo⟩ : ∃ info, r.decl? 0 = some info := ⟨_, by rfl⟩
  have hwritten : ∀ w ∈ [Written.named "i32" []], ∀ u, r.resolve [] w = .ok u → u.flags.isClosed = true := by
    refine List.forall_mem_singleton.mpr fun u hu => ?_
    obtain rfl : Ty.prim .i32 = u := Except.ok.inj hu
    decide +kernel
  have hback := (hresolve (by decide) (by decide +kernel) hinfo hwritten hpair).mp (by decide +kernel)
  obtain ⟨-, hinferred⟩ := hsolve lagGenerics (by decide +kernel) []
  have hlisted : ∀ d ∈ r.decls, ∀ t ∈ d.implements, t.ParamsBelow d.generics.length := by
    have hnone : ∀ d ∈ r.decls, d.implements = [] := by decide +kernel
    intro d hd t ht
    rw [hnone d hd] at ht
    cases ht
  have hactual : ∀ e ∈ [({ pattern := .param "U" 1, actual := .prim .i32 } : Equation)],
      r.outline.WellFormed e.actual ∧ e.actual.flags.isClosed = true :=
    List.forall_mem_singleton.mpr ⟨.intro True.intro nofun, by decide +kernel⟩
  have hgather : r.gather ⟨0, lagGenerics⟩ [{ pattern := .param "U" 1, actual := .prim .i32 }] =
      .ok ⟨[(1, .prim .i32)], []⟩ := by rfl
  have hsolved : r.solveInferred [] lagGenerics 0 [{ pattern := .param "U" 1, actual := .prim .i32 }] =
      .ok (.ofTypes lagGenerics [.param "U" 1, .prim .i32]) := by rfl
  refine ⟨by decide +kernel, hpair, ⟨info, hinfo, hback⟩, hsolved, _, hgather, fun h => ?_⟩
  have hclosed := (hinferred hlisted hactual hgather hsolved).mpr h
  exact absurd (hclosed (.param "U" 1) (by decide +kernel)) (by decide +kernel)

end Module

end TypeFlow
