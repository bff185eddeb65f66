import TypeFlow.Proofs.Infer.Laws
import TypeFlow.Proofs.Solve.Gathering

namespace TypeFlow

structure Instantiation.Holds (good : Ty → Prop) (gs : Generics) (i : Instantiation) : Prop where
  length : i.typeArgs.length = gs.length
  arg : ∀ t ∈ i.typeArgs, good t
  inDomains : gs.InDomains i.typeArgs

theorem Instantiation.Holds.apply {good : Ty → Prop} {gs : Generics} {i : Instantiation} {t : Ty}
    (h : i.Holds good gs) (ht : t.Applies good gs) : good (i.apply t) := ht _ h.length h.arg h.inDomains

def GenericParam.Takes (good : Ty → Prop) (p : GenericParam) (done : List Ty) (t : Ty) : Prop :=
  (good t ∧ ∀ u v, p.constType = some u → t = .const v → v.inDomain u = true) ∨
    ∃ d, p.default = some d ∧ t = d.substParams done

namespace TypeClosure

variable {c : BodyContext} {good : Ty → Prop} {written : Written → Prop} (L : TypeClosure c good written)

include L

theorem interfaceArgs {d : DeclId} {t : Ty} {as : List Ty} (h : good t)
    (k : c.registry.interfaceArgs d t = some as) : ∀ a ∈ as, good a :=
  fun _ => L.part (L.interfacesOf (.inl h) (Registry.mem_interfacesOf_of_interfaceArgs k))

theorem gather {o : Opening} {eqs : List Equation} {s : Solution} (he : ∀ e ∈ eqs, e.actual.Loose good)
    (k : c.registry.gather o eqs = .ok s) {v : Nat} {t : Ty} (hv : s.get v = some t) : good t := by
  obtain ⟨e, hmem, hl⟩ := Registry.exists_of_mem_heard (((Registry.gather_ok k).2 v t).mp hv)
  have hsilent := (Registry.mem_lessons.mp hl).1
  have htyped : e.actual.isUntyped = false := (Bool.or_eq_false_iff.mp hsilent).2
  exact Registry.good_of_mem_lessons L.part L.interfaceArgs ((he e hmem).typed htyped) hl

omit L in
theorem fills {k : Nat} {all gs : Generics} {done tys : List Ty} (hg : all.Holds good)
    (hgs : all.drop done.length = gs) (hd : ∀ t ∈ done, good t) (hin : all.InDomains done)
    (h : gs.Fills (fun _ p => p.Takes good) k done tys) : (∀ t ∈ tys, good t) ∧ all.InDomains tys := by
  induction h with
  | nil => exact ⟨hd, hin⟩
  | @cons k p gs done tys t head _ ih =>
    obtain ⟨hhead, htail⟩ := of_drop_eq_cons hgs
    obtain ⟨hgood, hconst⟩ :
        good t ∧ ∀ u v, p.constType = some u → t = .const v → v.inDomain u = true := by
      rcases head with hgiven | ⟨d, hdefault, rfl⟩
      · exact hgiven
      · have hnone : p.constType = none := GenericParam.constType_of_default hdefault
        exact ⟨hg.apply_default hhead hdefault hd hin, fun u v hu => nomatch hnone.symm.trans hu⟩
    exact ih (by simpa using htail) (List.forall_mem_append.mpr ⟨hd, List.forall_mem_singleton.mpr hgood⟩)
      (hin.concat hhead hconst)

theorem solveInferred {b : Bounds} {gs : Generics} {base : Nat} {eqs : List Equation}
    {i : Instantiation} (hg : gs.Holds good) (he : ∀ e ∈ eqs, e.actual.Loose good)
    (k : c.registry.solveInferred b gs base eqs = .ok i) : i.Holds good gs := by
  obtain ⟨s, tys, hs, hfills, -, rfl⟩ := Registry.solveInferred_eq_ok_iff.mp k
  have hlength : tys.length = gs.length := hfills.length.trans (Nat.zero_add _)
  have htakes : gs.Fills (fun _ p => p.Takes good) base [] tys := by
    refine hfills.imp fun {k p done t} ⟨hconst, _, hread⟩ => ?_
    rcases hread with hget | ⟨-, hdefault⟩
    · refine .inl ⟨L.gather he hs hget, fun u v hu => ?_⟩
      cases hconst.symm.trans (GenericParam.isConst_of_constType hu)
    · exact .inr hdefault
  have hdrop : gs.drop ([] : List Ty).length = gs := rfl
  obtain ⟨hgood, hin⟩ := fills hg hdrop nofun gs.inDomains_nil htakes
  have harg := Instantiation.typeArgs_ofTypes hlength
  exact ⟨by rw [harg, hlength], by rw [harg]; exact hgood, by rw [harg]; exact hin⟩

omit L in
theorem bindExplicit {p : GenericParam} {a : ExplicitArg} {g : GenericBinding}
    (leaf : ∀ v, good (.const v)) (ha : ∀ t, a = .type t → good t)
    (k : p.bindExplicit a = .ok g) :
    good g.toTy ∧ ∀ t v, p.constType = some t → g.toTy = .const v → v.inDomain t = true := by
  unfold GenericParam.bindExplicit at k
  split at k
  · next hk =>
    cases k
    exact ⟨ha _ rfl, fun t v ht => by simp [GenericParam.constType, hk] at ht⟩
  · next t v hk =>
    split at k <;> cases k
    next hin =>
    refine ⟨leaf _, fun u w hu hw => ?_⟩
    cases hw
    obtain rfl : t = u := by simpa [GenericParam.constType, hk] using hu
    exact hin
  all_goals cases k

theorem solveExplicit {b : Bounds} {gs : Generics} {args : List ExplicitArg} {i : Instantiation}
    (hg : gs.Holds good) (ha : ∀ a ∈ args, ∀ t, a = .type t → good t)
    (k : c.registry.solveExplicit b gs args = .ok i) : i.Holds good gs := by
  obtain ⟨-, hfills, -⟩ := Registry.solveExplicit_ok k
  have htakes : gs.Fills (fun _ p => p.Takes good) 0 [] i.typeArgs := by
    refine hfills.imp fun hbinds => ?_
    rcases hbinds with ⟨a, b, hget, hb, rfl⟩ | ⟨-, hdefault⟩
    · exact .inl (bindExplicit (fun v => L.leaf rfl rfl) (ha a (List.mem_of_getElem? hget)) hb)
    · exact .inr hdefault
  have hdrop : gs.drop ([] : List Ty).length = gs := rfl
  obtain ⟨hgood, hin⟩ := fills hg hdrop nofun gs.inDomains_nil htakes
  exact ⟨hfills.length.trans (Nat.zero_add _), hgood, hin⟩

end TypeClosure

structure BodyContext.Solves (c : BodyContext) (gs : Generics) (i : Instantiation) : Prop where
  names : i.params.map (·.1) = gs.map (·.name)
  bound : ∀ {k : Nat} {p : GenericParam} {t b : Ty}, gs[k]? = some p → i.typeArgs[k]? = some t →
    b ∈ p.bounds → c.registry.assignableIn c.bounds t (b.substParams i.typeArgs) = true

namespace BodyContext

variable {c : BodyContext} {gs : Generics} {i : Instantiation}

theorem solves_of_satisfies (hn : i.params.map (·.1) = gs.map (·.name))
    (h : c.registry.Satisfies c.bounds gs i.typeArgs) : c.Solves gs i where
  names := hn
  bound hp ht hb :=
    h (_, _) (List.mem_of_getElem? (List.getElem?_zip_eq_some.mpr ⟨hp, ht⟩)) _ hb

theorem solves_of_solveInferred {base : Nat} {eqs : List Equation}
    (h : c.registry.solveInferred c.bounds gs base eqs = .ok i) : c.Solves gs i := by
  obtain ⟨s, tys, -, hfills, hsat, rfl⟩ := Registry.solveInferred_eq_ok_iff.mp h
  have hlength : tys.length = gs.length := hfills.length.trans (Nat.zero_add _)
  refine solves_of_satisfies (Instantiation.names_ofTypes hlength) ?_
  rwa [Instantiation.typeArgs_ofTypes hlength]

theorem solves_of_solveExplicit {args : List ExplicitArg}
    (h : c.registry.solveExplicit c.bounds gs args = .ok i) : c.Solves gs i :=
  have ⟨hnames, _, hsat⟩ := Registry.solveExplicit_ok h
  solves_of_satisfies hnames hsat

end BodyContext

end TypeFlow
