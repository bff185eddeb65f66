import TypeFlow.Proofs.Solve.Gathering

namespace TypeFlow

namespace Ty

def decomposes : Ty → Bool
  | pointer .. | reference .. | fixedArray .. | dynArray _ | channel _ | map .. | tuple _ | function ..
  | named .. | interface .. | option _ | result .. => true
  | _ => false

variable {t u : Ty}

theorem decomposes_congr (h : t.head = u.head) : t.decomposes = u.decomposes := by
  cases t <;> cases u <;> first | rfl | cases h

theorem isSilent_of_decomposes (h : t.decomposes = true) : t.isSilent = false := by
  cases t <;> first | rfl | cases h

theorem paramFree_of_isRigid (h : t.isRigid = true) (hd : t.decomposes = false) : t.ParamFree := by
  cases t
  case param | tuple | union => cases h
  case prim | unit | never | error | untypedNone | untypedNil | var | const => exact .intro nofun nofun
  all_goals cases hd

end Ty

namespace Registry

variable {r : Registry} {p a : Ty}

theorem mem_align_of_head (hhead : p.head = a.head) (hlength : p.parts.length = a.parts.length)
    (hp : p.decomposes = true) {q : Ty × Ty} : q ∈ r.align p a ↔ q ∈ p.parts.zip a.parts := by
  cases p
  case pointer | reference | fixedArray | dynArray | channel | map | option | result =>
    cases a <;> first | exact Iff.rfl | cases hhead
  case tuple ps =>
    cases a
    case tuple as =>
      have hlength : ps.length = as.length := hlength
      rw [align, if_pos (beq_iff_eq.mpr hlength)]
      rfl
    all_goals cases hhead
  case function ps w pr =>
    cases a
    case function as w' ar =>
      rw [align, if_pos (beq_iff_eq.mpr (Nat.succ.inj hlength)), List.mem_append, or_comm, List.mem_singleton]
      exact List.mem_cons.symm
    all_goals cases hhead
  case named d ps =>
    cases a
    case named e as =>
      cases hhead
      rw [align, if_pos (beq_self_eq_true d)]
      rfl
    all_goals cases hhead
  case interface d ps =>
    cases a
    case interface e as =>
      cases hhead
      rw [align, if_pos (beq_self_eq_true d)]
      rfl
    all_goals cases hhead
  all_goals cases hp

theorem mem_lessons_of_head (hhead : p.head = a.head) (hp : p.decomposes = true) {qs : List Ty}
    {f g : Ty → Ty} (hf : p.parts = qs.map f) (hg : a.parts = qs.map g) {l : Nat × Ty} :
    l ∈ r.lessons p a ↔ ∃ q ∈ qs, l ∈ r.lessons (f q) (g q) := by
  have hsilent : a.isSilent = false := Ty.isSilent_of_decomposes ((Ty.decomposes_congr hhead).symm.trans hp)
  have hvar : ∀ v, p ≠ .var v := by
    rintro v rfl
    cases hp
  have hlength : p.parts.length = a.parts.length := by rw [hf, hg, List.length_map, List.length_map]
  rw [lessons_eq hsilent hvar, List.mem_flatMap]
  simp only [mem_align_of_head hhead hlength hp, hf, hg, List.zip_map', List.mem_map]
  constructor
  · rintro ⟨_, ⟨q, hq, rfl⟩, hl⟩
    exact ⟨q, hq, hl⟩
  · rintro ⟨q, hq, hl⟩
    exact ⟨_, ⟨q, hq, rfl⟩, hl⟩

theorem getElem?_vars (o : Opening) (i : Nat) :
    o.vars[i]? = if i < o.generics.length then some (.var (o.base + i)) else none := by
  rw [Opening.vars, List.getElem?_map]
  split
  · next h => rw [List.getElem?_range' h, Nat.one_mul]; rfl
  · next h => rw [List.getElem?_eq_none (by simpa using h)]; rfl

variable {o : Opening} {σ : List Ty}

def Teaches (o : Opening) (σ : List Ty) (l : Nat × Ty) (u : Ty) : Prop :=
  ∃ x i, u = .param x i ∧ l.1 = o.base + i ∧ σ[i]? = some l.2

theorem mem_lessons_param (hlength : σ.length = o.generics.length) (hσ : ∀ t ∈ σ, t.isSilent = false)
    {x : String} {i : Nat} {l : Nat × Ty} :
    l ∈ r.lessons (o.openTy (.param x i)) ((Ty.param x i).substParams σ) ↔ Teaches o σ l (.param x i) := by
  rw [Opening.openTy, Ty.substParams_param, Ty.substParams_param, getElem?_vars]
  by_cases hi : i < o.generics.length
  · have hget : σ[i]? = some σ[i] := List.getElem?_eq_getElem (hlength ▸ hi)
    rw [if_pos hi, hget, Option.getD_some, Option.getD_some, lessons_var (hσ _ (List.mem_of_getElem? hget)),
      List.mem_singleton]
    constructor
    · rintro rfl
      exact ⟨x, i, rfl, rfl, hget⟩
    · rintro ⟨_, _, ⟨⟩, hv, ht⟩
      exact Prod.ext hv (Option.some.inj (ht.symm.trans hget))
  · have hnone : σ[i]? = none := List.getElem?_eq_none (by omega)
    have hfree : (Ty.param x i).VarFree := .intro nofun nofun
    rw [if_neg hi, hnone, Option.getD_none, lessons_of_varFree hfree]
    refine iff_of_false List.not_mem_nil ?_
    rintro ⟨_, _, ⟨⟩, _, ht⟩
    cases hnone.symm.trans ht

theorem mem_lessons_openTy (hlength : σ.length = o.generics.length) (hσ : ∀ t ∈ σ, t.isSilent = false)
    (hfree : p.VarFree) (hunion : p.Everywhere fun u => ∀ ts, u = .union ts → u.ParamFree) {l : Nat × Ty} :
    l ∈ r.lessons (o.openTy p) (p.substParams σ) ↔ p.Somewhere (Teaches o σ l) := by
  have hvarsLength : o.vars.length = o.generics.length := by simp [Opening.vars]
  by_cases hempty : σ = []
  · subst hempty
    have hvars : o.vars = [] := List.length_eq_zero_iff.mp (hvarsLength.trans hlength.symm)
    have hnone : ¬ p.Somewhere (Teaches o [] l) :=
      Ty.not_somewhere_iff.mpr (hfree.imp fun _ _ ⟨_, _, _, _, harg⟩ => nomatch harg)
    rw [Opening.openTy, hvars, show p.substParams [] = p from rfl, lessons_of_varFree hfree]
    exact iff_of_false List.not_mem_nil hnone
  have hvars : o.vars ≠ [] := by
    rw [← List.length_pos_iff, hvarsLength, ← hlength]
    exact List.length_pos_iff.mpr hempty
  induction p using Ty.parts_induction with
  | h p ih =>
    have hbelow (hown : ∀ x i, p ≠ .param x i) :
        (∃ q ∈ p.parts, l ∈ r.lessons (o.openTy q) (q.substParams σ)) ↔ p.Somewhere (Teaches o σ l) := by
      rw [Ty.somewhere_iff, or_iff_right fun ⟨x, i, heq, _⟩ => hown x i heq]
      exact exists_congr fun q => and_congr_right fun hq => ih q hq (hfree.part hq) (hunion.part hq)
    by_cases hparam : p.flags.hasParam = true
    · have hmention : ¬ p.ParamFree := fun h => by simp [Ty.hasParam_eq_false_iff.mpr h] at hparam
      by_cases hrigid : p.isRigid = true
      · have hdecomposes : p.decomposes = true :=
          (Bool.not_eq_false _).mp fun h => hmention (Ty.paramFree_of_isRigid hrigid h)
        have hhead := Ty.head_substParams hrigid o.vars
        rw [← hbelow (by rintro x i rfl; cases hrigid)]
        exact mem_lessons_of_head (hhead.trans (Ty.head_substParams hrigid σ).symm)
          ((Ty.decomposes_congr hhead).trans hdecomposes) (Ty.parts_substParams hrigid _)
          (Ty.parts_substParams hrigid _)
      · cases p
        case param x i =>
          rw [Ty.somewhere_iff, or_iff_left nofun]
          exact mem_lessons_param hlength hσ
        case union ts => exact absurd (hunion.node ts rfl) hmention
        case tuple ts =>
          rw [← hbelow nofun, Opening.openTy, Ty.substParams_tuple hvars hparam,
            Ty.substParams_tuple hempty hparam]
          match ts with
          | [] => exact absurd (.intro nofun nofun) hmention
          | [t] => simp [Ty.mkTuple, Ty.parts, Opening.openTy]
          | t :: u :: us =>
            exact mem_lessons_of_head (p := .tuple ((t :: u :: us).map (Ty.substParams o.vars)))
              (a := .tuple ((t :: u :: us).map (Ty.substParams σ))) rfl rfl rfl rfl
        all_goals exact absurd rfl hrigid
    · rw [Bool.not_eq_true] at hparam
      have hnone : ¬ p.Somewhere (Teaches o σ l) :=
        Ty.not_somewhere_iff.mpr ((Ty.hasParam_eq_false_iff.mp hparam).imp fun _ hu ⟨x, i, heq, _⟩ => hu x i heq)
      rw [Opening.openTy, Ty.substParams_of_not_hasParam hparam, lessons_of_varFree hfree]
      exact iff_of_false List.not_mem_nil hnone

variable {b : Bounds} {gs : Generics} {base : Nat} {eqs : List Equation}

theorem solveInferred_recovers (htypes : ∀ p ∈ gs, p.isConst = false) (hlength : σ.length = gs.length)
    (hσ : ∀ t ∈ σ, t.VarFree ∧ t.isSilent = false) (hsat : r.Satisfies b gs σ)
    (hpatterns : ∀ e ∈ eqs, e.pattern.VarFree ∧
      e.pattern.Everywhere fun u => ∀ ts, u = .union ts → u.ParamFree)
    (hmentioned : ∀ i < gs.length, ∃ e ∈ eqs, e.pattern.Somewhere fun u => ∃ x, u = .param x i)
    (hactual : ∀ e ∈ eqs, e.actual = e.pattern.substParams σ) :
    ∃ inst, r.solveInferred b gs base eqs = .ok inst ∧ inst.typeArgs = σ ∧
      ∀ e ∈ eqs, inst.apply e.pattern = e.actual := by
  have hlessons : ∀ e ∈ eqs, ∀ l, l ∈ r.lessons (Opening.openTy ⟨base, gs⟩ e.pattern) e.actual ↔
      e.pattern.Somewhere (Teaches ⟨base, gs⟩ σ l) := fun e he l => by
    rw [hactual e he]
    exact mem_lessons_openTy hlength (fun t ht => (hσ t ht).2) (hpatterns e he).1 (hpatterns e he).2
  have hheard {v : Nat} {t : Ty} (h : (v, t) ∈ r.heard ⟨base, gs⟩ eqs) :
      ∃ i, v = base + i ∧ σ[i]? = some t := by
    obtain ⟨e, he, hl⟩ := exists_of_mem_heard h
    obtain ⟨u, x, i, -, hv, ht⟩ := ((hlessons e he _).mp hl).exists
    exact ⟨i, hv, ht⟩
  have hcoherent : Ty.VarBindings.Coherent (r.heard ⟨base, gs⟩ eqs) := by
    intro v t u ht hu
    obtain ⟨i, hi, ht⟩ := hheard ht
    obtain ⟨j, hj, hu⟩ := hheard hu
    obtain rfl : i = j := by omega
    exact Option.some.inj (ht.symm.trans hu)
  obtain ⟨s, hs, hget⟩ := exists_gather hcoherent
  have hbound {i : Nat} {t : Ty} (hi : σ[i]? = some t) : s.get (base + i) = some t := by
    have hlt : i < gs.length := hlength ▸ (List.getElem?_eq_some_iff.mp hi).1
    obtain ⟨e, he, hmention⟩ := hmentioned i hlt
    have hl := (hlessons e he (base + i, t)).mpr (hmention.imp fun u ⟨x, hx⟩ => ⟨x, i, hx, rfl, hi⟩)
    obtain ⟨u, hu⟩ := exists_heard_of_mem_lessons he hl
    obtain ⟨j, hj, hu'⟩ := hheard hu
    obtain rfl : i = j := by omega
    obtain rfl : t = u := Option.some.inj (hi.symm.trans hu')
    exact (hget _ _).mpr hu
  have hfills : gs.Fills s.Reads base [] σ := by
    refine Generics.Fills.append hlength (fun {i p t} hp ht done => ?_) []
    exact ⟨htypes p (List.mem_of_getElem? hp), (hσ t (List.mem_of_getElem? ht)).1, .inl (hbound ht)⟩
  have hargs : (Instantiation.ofTypes gs σ).typeArgs = σ := Instantiation.typeArgs_ofTypes hlength
  refine ⟨.ofTypes gs σ, solveInferred_eq_ok_iff.mpr ⟨s, σ, hs, hfills, hsat, rfl⟩, hargs, fun e he => ?_⟩
  rw [Instantiation.apply, hargs, hactual e he]

def twoParams : Generics := [⟨"T", 0, .type [] none⟩, ⟨"E", 1, .type [] (some (.prim .i32))⟩]

def failing : List Equation :=
  [{ pattern := .result (.param "T" 0) (.param "E" 1), actual := .result (.option (.prim .i64)) .unit },
    { pattern := .dynArray (.param "E" 1), actual := .dynArray .unit, weak := true }]

-- A result is not lifted where the other side is one, and the default is not asked for.
theorem solveInferred_recovers_result : ∃ inst, solveInferred {} [] twoParams 3 failing = .ok inst ∧
    inst.typeArgs = [.option (.prim .i64), .unit] := by
  have hfree : ∀ t ∈ [Ty.option (.prim .i64), .unit], t.VarFree ∧ t.isSilent = false :=
    List.forall_mem_cons.mpr ⟨⟨.intro nofun (List.forall_mem_singleton.mpr (.intro nofun nofun)), rfl⟩,
      List.forall_mem_singleton.mpr ⟨.intro nofun nofun, rfl⟩⟩
  have hsat : Satisfies {} [] twoParams [.option (.prim .i64), .unit] :=
    List.forall_mem_cons.mpr ⟨nofun, List.forall_mem_singleton.mpr nofun⟩
  have hpatterns : ∀ e ∈ failing, e.pattern.VarFree ∧
      e.pattern.Everywhere fun u => ∀ ts, u = .union ts → u.ParamFree := by
    have hT : (Ty.param "T" 0).VarFree ∧ (Ty.param "T" 0).Everywhere fun u => ∀ ts, u = .union ts → u.ParamFree :=
      ⟨.intro nofun nofun, .intro nofun nofun⟩
    have hE : (Ty.param "E" 1).VarFree ∧ (Ty.param "E" 1).Everywhere fun u => ∀ ts, u = .union ts → u.ParamFree :=
      ⟨.intro nofun nofun, .intro nofun nofun⟩
    refine List.forall_mem_cons.mpr ⟨⟨?_, ?_⟩, List.forall_mem_singleton.mpr ⟨?_, ?_⟩⟩
    · exact .intro nofun (List.forall_mem_cons.mpr ⟨hT.1, List.forall_mem_singleton.mpr hE.1⟩)
    · exact .intro nofun (List.forall_mem_cons.mpr ⟨hT.2, List.forall_mem_singleton.mpr hE.2⟩)
    · exact .intro nofun (List.forall_mem_singleton.mpr hE.1)
    · exact .intro nofun (List.forall_mem_singleton.mpr hE.2)
  have hmentioned : ∀ i < twoParams.length, ∃ e ∈ failing, e.pattern.Somewhere fun u => ∃ x, u = .param x i := by
    intro i hi
    refine ⟨_, List.mem_cons_self, ?_⟩
    match i with
    | 0 => exact .under (u := .param "T" 0) (by simp [Ty.parts]) (.here ⟨"T", rfl⟩)
    | 1 => exact .under (u := .param "E" 1) (by simp [Ty.parts]) (.here ⟨"E", rfl⟩)
  have hactual : ∀ e ∈ failing, e.actual = e.pattern.substParams [.option (.prim .i64), .unit] :=
    List.forall_mem_cons.mpr ⟨by decide +kernel, List.forall_mem_singleton.mpr (by decide +kernel)⟩
  obtain ⟨inst, hsolved, hargs, -⟩ :=
    solveInferred_recovers (by decide) rfl hfree hsat hpatterns hmentioned hactual
  exact ⟨inst, hsolved, hargs⟩

end Registry

end TypeFlow
