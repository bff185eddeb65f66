import TypeFlow.Proofs.Check.Arms
import TypeFlow.Proofs.Typing.LeastBound

namespace TypeFlow

theorem Ty.isNever_iff {t : Ty} : t.isNever = true ↔ t = .never := ⟨Ty.eq_never_of_isNever, fun h => h ▸ rfl⟩

namespace Registry

variable {r : Registry} {ts : List Ty}

theorem rising_ne_never (hr : r.ListsInterfaces) : r.Rising (· ≠ .never) where
  error := Ty.noConfusion
  never h := absurd rfl h
  none _ _ := Ty.noConfusion
  nil _ _ _ := Ty.noConfusion
  option _ _ := Ty.noConfusion
  interface _ hi := by
    rintro rfl
    cases isInterface_of_mem_interfacesOf hr hi

theorem joinAll_replicate_never (r : Registry) (ids : Ty → Nat) (h : ∀ t ∈ ts, t = .never) :
    r.joinAll ids ts = .ok .never := by
  induction ts with
  | nil => rfl
  | cons t ts ih =>
    obtain ⟨rfl, hts⟩ := List.forall_mem_cons.mp h
    exact ih hts

theorem joinAll_eq_never_iff (hr : r.ListsInterfaces) (ids : Ty → Nat) :
    r.joinAll ids ts = .ok .never ↔ ∀ t ∈ ts, t = .never :=
  ⟨fun h _ ht => Decidable.byContradiction fun hne => (rising_ne_never hr).joinAll h ht hne rfl,
    joinAll_replicate_never r ids⟩

theorem joinAll_of_forall_never (r : Registry) (ids : Ty → Nat) (h : ∀ t ∈ ts, t = .never ∨ t = .error) :
    ∃ t, r.joinAll ids ts = .ok t := by
  suffices hfold : ∀ a, a = .never ∨ a = .error → ∃ t, ts.foldlM (r.join ids) a = .ok t from hfold _ (.inl rfl)
  induction ts with
  | nil => exact fun a _ => ⟨a, rfl⟩
  | cons t ts ih =>
    obtain ⟨ht, hts⟩ := List.forall_mem_cons.mp h
    intro a ha
    rcases ha with rfl | rfl <;> rcases ht with rfl | rfl
    · exact ih hts .never (.inl rfl)
    · exact ih hts .error (.inr rfl)
    · exact ih hts .error (.inr rfl)
    · exact ih hts .error (.inr rfl)

end Registry

namespace Infer

variable {c : BodyContext} {s : BodyState}

theorem branchType_eq_never_iff (hc : c.registry.ListsInterfaces) (span : Span) (ts : List Ty) (x : Option Ty)
    (s : BodyState) : (branchType span ts x true).value c s = .never ↔ ∀ t ∈ ts, t = .never := by
  have hjoin : branchType span ts x true = joinArms span ts x := rfl
  rw [hjoin]
  cases hall : c.registry.joinAll c.ids ts with
  | ok u =>
    have hok : c.joinArms ts x = .ok u := by
      rw [BodyContext.joinArms, hall]
      rfl
    rcases run_joinArms c span ts x with ⟨t, ht, hrun⟩ | ⟨e, he, -⟩
    · cases hok.symm.trans ht
      rw [(hrun s).1, ← Registry.joinAll_eq_never_iff hc c.ids, hall, Except.ok.injEq]
    · cases hok.symm.trans he
  | error e =>
    have hsome : ¬ ∀ t ∈ ts, t = .never ∨ t = .error := fun h => by
      obtain ⟨t, ht⟩ := c.registry.joinAll_of_forall_never c.ids h
      cases hall.symm.trans ht
    refine iff_of_false ?_ fun h => hsome fun t ht => .inl (h t ht)
    rcases run_joinArms c span ts x with ⟨t, ht, hrun⟩ | ⟨e, -, hrun⟩
    · rw [(hrun s).1]
      rintro rfl
      obtain hjoined | ⟨-, hfits⟩ := BodyContext.cases_of_joinArms ht
      · cases hall.symm.trans hjoined
      · exact hsome fun t ht => (Registry.assignableIn_bare rfl (hfits t ht)).elim .inl id
    · rw [(hrun s).1]
      exact Ty.noConfusion

structure Survey where
  path : Option (Path × Ty)
  types : List Ty
  layer : Layer

def Survey.Exhausted (m : Survey) : Prop := ∃ p declared, m.path = some (p, declared) ∧ m.layer.narrowed p = some .never

def survey (scrutinee : Child) (armList : List ArmChild) (x : Option Ty) (used : Bool) : Infer Survey := do
  let subject ← scrutinee.infer none
  let path ← narrowableChild scrutinee
  pushBranch []
  let results ← arms subject path x used armList
  return ⟨path, results.map (·.2), (← get).flow.top⟩

theorem terminal_arms (subject : Ty) (path : Option (Path × Ty)) (x : Option Ty) (used : Bool)
    (armList : List ArmChild) (s : BodyState) :
    ∀ o ∈ (arms subject path x used armList).value c s, o.1.terminal = o.2.isNever := by
  induction armList generalizing s with
  | nil => exact fun o ho => absurd ho List.not_mem_nil
  | cons arm rest ih =>
    rw [arms_cons]
    refine List.forall_mem_cons.mpr ⟨rfl, ih _⟩

theorem exhausted_iff (m : Survey) {t : BodyState} (h : t.flow.top = m.layer) :
    ((narrowingOf m.path).value c t).any (·.ty.isNever) = true ↔ m.Exhausted := by
  obtain ⟨path, types, layer⟩ := m
  subst h
  have hnever (p : Path) (declared : Ty) : Survey.Exhausted ⟨some (p, declared), types, t.flow.top⟩ ↔
      t.flow.top.narrowed p = some .never := by
    simp [Survey.Exhausted]
  cases path with
  | none => exact iff_of_false Bool.false_ne_true fun ⟨_, _, h, _⟩ => nomatch h
  | some q =>
    rw [hnever]
    show (t.flow.top.get q.1).any (·.ty.isNever) = true ↔ (t.flow.top.get q.1).map (·.ty) = some .never
    cases t.flow.top.get q.1 with
    | none => simp
    | some n => simp [Ty.isNever_iff]

theorem value_matchOn_used (span : Span) (scrutinee : Child) (armList : List ArmChild) (x : Option Ty)
    (s : BodyState) : ∃ u, (matchOn span scrutinee armList Expr.missing.asChild x true).value c s =
      (branchType span ((survey scrutinee armList x true).value c s).types x true).value c u := by
  have happend (m : Survey) : m.types = m.types ++ [] := (List.append_nil _).symm
  rw [happend]
  simp only [matchOn, survey, value_bind, value_pure]
  rw [if_pos True.intro]
  exact ⟨_, rfl⟩

theorem value_matchOn_discarded (span : Span) (scrutinee : Child) (armList : List ArmChild) (x : Option Ty)
    (s : BodyState) : (matchOn span scrutinee armList Expr.missing.asChild x false).value c s = .never ↔
      (∀ t ∈ ((survey scrutinee armList x false).value c s).types, t = .never) ∧
        ((survey scrutinee armList x false).value c s).Exhausted := by
  let m := (survey scrutinee armList x false).value c s
  let subject := (scrutinee.infer none).value c s
  let opened := (pushBranch []).after c ((narrowableChild scrutinee).after c ((scrutinee.infer none).after c s))
  let results : List (Outcome × Ty) := (arms subject m.path x false armList).value c opened
  let behind := (arms subject m.path x false armList).after c opened
  have hrun : (matchOn span scrutinee armList Expr.missing.asChild x false).value c s =
      if (results.map Prod.fst ++ [Outcome.mk ((narrowingOf m.path).after c behind).flow.top
        (((narrowingOf m.path).value c behind).any (·.ty.isNever))]).all Outcome.terminal
      then .never else .unit := rfl
  have hterminal : (results.map Prod.fst).all Outcome.terminal = true ↔ ∀ t ∈ m.types, t = .never := by
    show _ ↔ ∀ t ∈ results.map Prod.snd, t = .never
    simp only [List.all_eq_true, List.forall_mem_map]
    refine forall₂_congr fun o ho => ?_
    rw [terminal_arms _ _ _ _ _ _ o ho, Ty.isNever_iff]
  have hlast := exhausted_iff (c := c) m (t := behind) rfl
  rw [hrun, List.all_append, List.all_cons, List.all_nil, Bool.and_true, ← hterminal, ← hlast, ← Bool.and_eq_true]
  split
  · case isTrue h => exact iff_of_true rfl h
  · case isFalse h => exact iff_of_false Ty.noConfusion h

theorem matchOn_eq_never_iff (hc : c.registry.ListsInterfaces) (span : Span) (scrutinee : Child)
    (armList : List ArmChild) (x : Option Ty) (used : Bool) (s : BodyState) :
    (matchOn span scrutinee armList Expr.missing.asChild x used).value c s = .never ↔
      (∀ t ∈ ((survey scrutinee armList x used).value c s).types, t = .never) ∧
        (used = false → ((survey scrutinee armList x used).value c s).Exhausted) := by
  cases used with
  | true =>
    obtain ⟨u, hu⟩ := value_matchOn_used (c := c) span scrutinee armList x s
    rw [hu, branchType_eq_never_iff hc]
    exact ⟨fun h => ⟨h, fun h => nomatch h⟩, And.left⟩
  | false =>
    rw [value_matchOn_discarded]
    exact and_congr_right fun _ => ⟨fun h _ => h, fun h => h rfl⟩

theorem visit_eq_never_iff (site : Site) (act : Infer Typed) (s : BodyState) :
    ((visit site act).value c s).ty = .never ↔
      ((visit site act).after c s).aborted = false ∧ (act.value c s).ty = .never := by
  cases hs : s.aborted with
  | true =>
    obtain ⟨hafter, hvalue⟩ := run_visit_of_aborted c site act hs
    rw [hafter, hvalue, hs]
    exact iff_of_false Ty.noConfusion fun h => nomatch h.1
  | false =>
    rw [(run_visit c site act hs rfl).2, (flow_visit c site act hs).2]
    split
    · case isTrue h => exact iff_of_false Ty.noConfusion fun k => Bool.false_ne_true (k.1.symm.trans h)
    · case isFalse h => exact ⟨fun k => ⟨Bool.eq_false_iff.mpr h, k⟩, And.right⟩

end Infer

open Infer

-- The type of a match without an `else` arm.
theorem infer_matchOn_eq_never_iff {c : BodyContext} (hc : c.registry.ListsInterfaces) (site : Site) (e : Expr)
    (as : List Arm) (x : Option Ty) (used : Bool) (s : BodyState) :
    let t := ((Expr.matchOn site e as .missing).infer x used).after c s
    let m := (survey e.asChild (Arm.asChildren as) x used).value c s
    (((Expr.matchOn site e as .missing).infer x used).value c s).ty = .never ↔
      t.aborted = false ∧ (∀ u ∈ m.types, u = .never) ∧ (used = false → m.Exhausted) :=
  (visit_eq_never_iff site _ s).trans <| and_congr_right fun _ =>
    matchOn_eq_never_iff hc site.span e.asChild (Arm.asChildren as) x used s

def halfArms : List Arm := [.onType (.named "i32" []) (.ret ⟨1, {}⟩ .missing) {}]

def halfState : BodyState where
  scope := ⟨[("x", ⟨.union [.prim .i32, .prim .i64], false⟩)], []⟩

theorem infer_matchOn_halfArms :
    let x : Expr := .ident ⟨0, {}⟩ "x"
    let m (used : Bool) := (survey x.asChild (Arm.asChildren halfArms) none used).value {} halfState
    let t (used : Bool) := (((Expr.matchOn ⟨2, {}⟩ x halfArms .missing).infer none used).value {} halfState).ty
    t true = .never ∧ ¬ (m true).Exhausted ∧ t false ≠ .never ∧ ¬ (m false).Exhausted := by
  intro x m t
  have hleft (used : Bool) : ¬ (m used).Exhausted := by
    rintro ⟨p, declared, hpath, hnever⟩
    have hp : some (p, declared) = some (⟨"x", []⟩, .union [.prim .i32, .prim .i64]) := hpath.symm.trans rfl
    cases hp
    have hi64 : (m used).layer.narrowed ⟨"x", []⟩ = some (.prim .i64) := rfl
    cases hi64.symm.trans hnever
  have hiff (used : Bool) := infer_matchOn_eq_never_iff (c := {}) (by decide) ⟨2, {}⟩ x halfArms none used halfState
  exact ⟨(hiff true).mpr ⟨rfl, List.forall_mem_singleton.mpr rfl, fun h => nomatch h⟩, hleft true,
    fun h => hleft false (((hiff false).mp h).2.2 rfl), hleft false⟩

end TypeFlow
