import TypeFlow.Proofs.Solve.Arguments
import TypeFlow.Proofs.Solve.Lessons

namespace TypeFlow

def SolveError.IsConflict (e : SolveError) : Prop := ∃ x t u, e = .conflicting x t u

namespace Ty.VarBindings

def Coherent (bs : Ty.VarBindings) : Prop := ∀ ⦃v t u⦄, (v, t) ∈ bs → (v, u) ∈ bs → t = u

variable {o : Opening} {bs bs' ls : Ty.VarBindings} {l : Nat × Ty} {v : Nat} {t : Ty}

theorem Coherent.lookup_eq_some_iff (h : Coherent bs) : bs.lookup v = some t ↔ (v, t) ∈ bs := by
  refine ⟨mem_of_lookup, fun hmem => ?_⟩
  obtain ⟨u, hu⟩ := Option.isSome_iff_exists.mp (isSome_lookup_of_mem hmem)
  rw [hu, h (mem_of_lookup hu) hmem]

theorem isSome_lookup_iff : (bs.lookup v).isSome = true ↔ ∃ t, (v, t) ∈ bs := by
  refine ⟨fun h => ?_, fun ⟨t, ht⟩ => isSome_lookup_of_mem ht⟩
  obtain ⟨t, ht⟩ := Option.isSome_iff_exists.mp h
  exact ⟨t, mem_of_lookup ht⟩

theorem coherent_nil : Coherent [] := nofun

theorem isNone_lookup_congr (h : ∀ l, l ∈ bs ↔ l ∈ bs') (v : Nat) :
    (bs.lookup v).isNone = (bs'.lookup v).isNone := by
  have hsome : (bs.lookup v).isSome = (bs'.lookup v).isSome := by
    rw [Bool.eq_iff_iff, isSome_lookup_iff, isSome_lookup_iff]
    simp only [h]
  rw [← Option.not_isSome, hsome, Option.not_isSome]

theorem coherent_congr (h : ∀ l, l ∈ bs ↔ l ∈ bs') : Coherent bs ↔ Coherent bs' := by
  unfold Coherent
  simp only [h]

theorem coherent_append (h : ∀ {v t u}, (v, t) ∈ bs → (v, u) ∉ ls) :
    Coherent (bs ++ ls) ↔ Coherent bs ∧ Coherent ls := by
  constructor
  · intro k
    exact ⟨fun _ _ _ ht hu => k (List.mem_append_left _ ht) (List.mem_append_left _ hu),
      fun _ _ _ ht hu => k (List.mem_append_right _ ht) (List.mem_append_right _ hu)⟩
  · rintro ⟨hbs, hls⟩ v t u ht hu
    rcases List.mem_append.mp ht with ht | ht <;> rcases List.mem_append.mp hu with hu | hu
    · exact hbs ht hu
    · exact absurd hu (h ht)
    · exact absurd ht (h hu)
    · exact hls ht hu

def enter (o : Opening) (bs : Ty.VarBindings) (l : Nat × Ty) : Except SolveError Ty.VarBindings :=
  match bs.lookup l.1 with
  | some t => if t == l.2 then .ok bs else .error (.conflicting (o.paramName l.1) t l.2)
  | none => .ok (l :: bs)

theorem enter_ok (hbs : Coherent bs) (h : enter o bs l = .ok bs') :
    Coherent bs' ∧ ∀ m, m ∈ bs' ↔ m ∈ bs ∨ m = l := by
  obtain ⟨v, t⟩ := l
  unfold enter at h
  split at h
  · next u hu =>
    split at h <;> cases h
    next heq =>
    have hmem : (v, t) ∈ bs := by
      rw [← show u = t from eq_of_beq heq]
      exact mem_of_lookup hu
    exact ⟨hbs, fun m => ⟨.inl, fun hm => hm.elim id fun hm => hm ▸ hmem⟩⟩
  · next hnone =>
    cases h
    have hnew : ∀ {w u r}, (w, u) ∈ [(v, t)] → (w, r) ∉ bs := by
      intro w u r hw hr
      cases List.mem_singleton.mp hw
      simpa using List.lookup_eq_none_iff.mp hnone _ hr
    have hone : Coherent [(v, t)] := by
      intro w u r hu hr
      cases List.mem_singleton.mp hu
      cases List.mem_singleton.mp hr
      rfl
    refine ⟨(coherent_append hnew).mpr ⟨hone, hbs⟩, fun m => ?_⟩
    rw [List.mem_cons, or_comm]

theorem enter_error {e : SolveError} (h : enter o bs l = .error e) :
    e.IsConflict ∧ ∃ t, (l.1, t) ∈ bs ∧ t ≠ l.2 := by
  unfold enter at h
  split at h
  · next t ht =>
    split at h <;> cases h
    next hne => exact ⟨⟨_, _, _, rfl⟩, t, mem_of_lookup ht, by simpa using hne⟩
  · cases h

theorem enterAll_ok (hbs : Coherent bs) (h : ls.foldlM (enter o) bs = .ok bs') :
    Coherent bs' ∧ ∀ m, m ∈ bs' ↔ m ∈ bs ∨ m ∈ ls := by
  induction ls generalizing bs with
  | nil =>
    cases h
    exact ⟨hbs, by simp⟩
  | cons l ls ih =>
    rw [List.foldlM_cons] at h
    cases hl : enter o bs l with
    | error e =>
      rw [hl] at h
      cases h
    | ok bs₁ =>
      rw [hl] at h
      obtain ⟨hbs₁, hmem₁⟩ := enter_ok hbs hl
      obtain ⟨hbs', hmem⟩ := ih hbs₁ h
      refine ⟨hbs', fun m => ?_⟩
      rw [hmem, hmem₁, List.mem_cons, or_assoc]

theorem enterAll_error {e : SolveError} (hbs : Coherent bs) (h : ls.foldlM (enter o) bs = .error e) :
    e.IsConflict ∧ ¬ Coherent (bs ++ ls) := by
  induction ls generalizing bs with
  | nil => cases h
  | cons l ls ih =>
    rw [List.foldlM_cons] at h
    cases hl : enter o bs l with
    | error e' =>
      rw [hl] at h
      cases h
      obtain ⟨hconflict, t, ht, hne⟩ := enter_error hl
      exact ⟨hconflict, fun k => hne (k (List.mem_append_left _ ht) (by simp))⟩
    | ok bs₁ =>
      rw [hl] at h
      obtain ⟨hbs₁, hmem₁⟩ := enter_ok hbs hl
      obtain ⟨hconflict, hnot⟩ := ih hbs₁ h
      refine ⟨hconflict, fun k => hnot ((coherent_congr fun m => ?_).mpr k)⟩
      simp only [List.mem_append, List.mem_cons, hmem₁, or_assoc]

end Ty.VarBindings

open Ty.VarBindings

namespace Solution

variable {o : Opening} {s s' : Solution} {ls : Ty.VarBindings}

theorem bind_strong (s : Solution) (l : Nat × Ty) : s.bind o false l.1 l.2 =
    enter o s.strong l >>= fun bs => .ok { s with strong := bs } := by
  unfold bind enter
  cases s.strong.lookup l.1 with
  | some t => dsimp only; rw [Bool.or_false]; split <;> rfl
  | none => rfl

theorem bind_weak (s : Solution) (l : Nat × Ty) : s.bind o true l.1 l.2 =
    if (s.strong.lookup l.1).isSome then .ok s
    else enter o s.weak l >>= fun bs => .ok { s with weak := bs } := by
  unfold bind enter
  cases s.strong.lookup l.1 with
  | some t => simp
  | none =>
    rw [Option.isSome_none, if_neg Bool.false_ne_true]
    cases s.weak.lookup l.1 with
    | some t => dsimp only; rw [if_pos rfl]; split <;> rfl
    | none => rfl

theorem learn_strong (s : Solution) (ls : Ty.VarBindings) : s.learn o false ls =
    ls.foldlM (enter o) s.strong >>= fun bs => .ok { s with strong := bs } := by
  induction ls generalizing s with
  | nil => rfl
  | cons l ls ih =>
    rw [learn, List.foldlM_cons, List.foldlM_cons, bind_strong]
    cases enter o s.strong l with
    | error e => rfl
    | ok bs => exact ih { s with strong := bs }

theorem learn_weak (s : Solution) (ls : Ty.VarBindings) : s.learn o true ls =
    (ls.filter fun l => (s.strong.lookup l.1).isNone).foldlM (enter o) s.weak >>= fun bs =>
      .ok { s with weak := bs } := by
  induction ls generalizing s with
  | nil => rfl
  | cons l ls ih =>
    rw [learn, List.foldlM_cons, List.filter_cons, bind_weak]
    cases s.strong.lookup l.1 with
    | some t => exact ih s
    | none =>
      rw [if_neg (by simp), if_pos Option.isNone_none, List.foldlM_cons]
      cases enter o s.weak l with
      | error e => rfl
      | ok bs => exact ih { s with weak := bs }

def Gathers (s : Solution) (ls : Ty.VarBindings) : Prop := ∀ v t, s.get v = some t ↔ (v, t) ∈ ls

end Solution

namespace Registry

variable {r : Registry} {o : Opening} {eqs : List Equation} {s s' : Solution}

def gather (r : Registry) (o : Opening) (eqs : List Equation) : Except SolveError Solution :=
  r.unifyEqs o false eqs {} >>= r.unifyEqs o true eqs

theorem solveInferred_eq (r : Registry) (b : Bounds) (gs : Generics) (base : Nat) (eqs : List Equation) :
    r.solveInferred b gs base eqs = (do
      let s ← r.gather ⟨base, gs⟩ eqs
      let tys ← readBindings s base gs []
      r.finish b gs ((gs.zip tys).map fun (p, t) => (p.name, .type t))) := by
  rw [gather, bind_assoc]
  rfl

def heard (r : Registry) (o : Opening) (eqs : List Equation) : Ty.VarBindings :=
  r.lessonsOf o false eqs ++
    (r.lessonsOf o true eqs).filter fun l => ((r.lessonsOf o false eqs).lookup l.1).isNone

theorem exists_of_mem_heard {l : Nat × Ty} (h : l ∈ r.heard o eqs) :
    ∃ eq ∈ eqs, l ∈ r.lessons (o.openTy eq.pattern) eq.actual := by
  have hof {weak : Bool} (h : l ∈ r.lessonsOf o weak eqs) :
      ∃ eq ∈ eqs, l ∈ r.lessons (o.openTy eq.pattern) eq.actual := by
    obtain ⟨eq, heq, -, hl⟩ := mem_lessonsOf.mp h
    exact ⟨eq, heq, hl⟩
  rcases List.mem_append.mp h with h | h
  · exact hof h
  · exact hof (List.mem_filter.mp h).1

theorem not_mem_of_mem_unheard {ls ms : Ty.VarBindings} {v : Nat} {t u : Ty} (ht : (v, t) ∈ ls) :
    (v, u) ∉ ms.filter fun l => (ls.lookup l.1).isNone := by
  intro hu
  obtain ⟨w, hw⟩ := Option.isSome_iff_exists.mp (isSome_lookup_of_mem ht)
  simpa [hw] using (List.mem_filter.mp hu).2

theorem exists_heard_of_mem_lessons {eq : Equation} (heq : eq ∈ eqs) {l : Nat × Ty}
    (hl : l ∈ r.lessons (o.openTy eq.pattern) eq.actual) : ∃ t, (l.1, t) ∈ r.heard o eqs := by
  have hof : l ∈ r.lessonsOf o eq.weak eqs := mem_lessonsOf.mpr ⟨eq, heq, rfl, hl⟩
  cases hstrong : (r.lessonsOf o false eqs).lookup l.1 with
  | some t => exact ⟨t, List.mem_append_left _ (mem_of_lookup hstrong)⟩
  | none =>
    cases hweak : eq.weak with
    | false =>
      rw [hweak] at hof
      exact ⟨l.2, List.mem_append_left _ hof⟩
    | true =>
      rw [hweak] at hof
      exact ⟨l.2, List.mem_append_right _ (List.mem_filter.mpr ⟨hof, by simp [hstrong]⟩)⟩

theorem coherent_heard : Coherent (r.heard o eqs) ↔ Coherent (r.lessonsOf o false eqs) ∧
    Coherent ((r.lessonsOf o true eqs).filter fun l => ((r.lessonsOf o false eqs).lookup l.1).isNone) :=
  coherent_append not_mem_of_mem_unheard

theorem strong_ok (h : r.unifyEqs o false eqs {} = .ok s) :
    s.weak = [] ∧ Coherent s.strong ∧ ∀ l, l ∈ s.strong ↔ l ∈ r.lessonsOf o false eqs := by
  rw [unifyEqs_eq_learn, Solution.learn_strong] at h
  obtain ⟨bs, hbs, h⟩ := exists_of_bind_ok h
  cases h
  obtain ⟨hcoherent, hmem⟩ := enterAll_ok coherent_nil hbs
  exact ⟨rfl, hcoherent, fun l => by simpa using hmem l⟩

theorem strong_error {e : SolveError} (h : r.unifyEqs o false eqs {} = .error e) :
    e.IsConflict ∧ ¬ Coherent (r.lessonsOf o false eqs) := by
  rw [unifyEqs_eq_learn, Solution.learn_strong] at h
  rcases exists_of_bind_error h with h | ⟨bs, -, h⟩
  · exact enterAll_error coherent_nil h
  · cases h

section Weak

variable (hweak : s.weak = []) (hstrong : ∀ l, l ∈ s.strong ↔ l ∈ r.lessonsOf o false eqs)

include hweak hstrong

theorem unifyEqs_weak : r.unifyEqs o true eqs s =
    ((r.lessonsOf o true eqs).filter fun l => ((r.lessonsOf o false eqs).lookup l.1).isNone).foldlM
      (enter o) [] >>= fun bs => .ok { s with weak := bs } := by
  rw [unifyEqs_eq_learn, Solution.learn_weak, hweak]
  simp only [isNone_lookup_congr hstrong]

theorem weak_ok (h : r.unifyEqs o true eqs s = .ok s') : s'.strong = s.strong ∧ Coherent s'.weak ∧
    ∀ l, l ∈ s'.weak ↔ l ∈ (r.lessonsOf o true eqs).filter
      fun l => ((r.lessonsOf o false eqs).lookup l.1).isNone := by
  rw [unifyEqs_weak hweak hstrong] at h
  obtain ⟨bs, hbs, h⟩ := exists_of_bind_ok h
  cases h
  obtain ⟨hcoherent, hmem⟩ := enterAll_ok coherent_nil hbs
  exact ⟨rfl, hcoherent, fun l => by simpa using hmem l⟩

theorem weak_error {e : SolveError} (h : r.unifyEqs o true eqs s = .error e) : e.IsConflict ∧
    ¬ Coherent ((r.lessonsOf o true eqs).filter
      fun l => ((r.lessonsOf o false eqs).lookup l.1).isNone) := by
  rw [unifyEqs_weak hweak hstrong] at h
  rcases exists_of_bind_error h with h | ⟨bs, -, h⟩
  · exact enterAll_error coherent_nil h
  · cases h

end Weak

theorem gather_ok (h : r.gather o eqs = .ok s) : Coherent (r.heard o eqs) ∧ s.Gathers (r.heard o eqs) := by
  obtain ⟨s₁, h₁, h₂⟩ := exists_of_bind_ok h
  obtain ⟨hnil, hcs, hstrong⟩ := strong_ok h₁
  obtain ⟨hsame, hcw, hweak⟩ := weak_ok hnil hstrong h₂
  refine ⟨coherent_heard.mpr ⟨(coherent_congr hstrong).mp hcs, (coherent_congr hweak).mp hcw⟩, ?_⟩
  intro v t
  rw [Solution.get, hsame, heard, List.mem_append, ← hstrong, ← hweak, Option.or_eq_some_iff,
    hcs.lookup_eq_some_iff, hcw.lookup_eq_some_iff]
  refine or_congr_right (and_iff_right_of_imp fun hmem => ?_)
  have hnone := (List.mem_filter.mp ((hweak _).mp hmem)).2
  rwa [← isNone_lookup_congr hstrong, Option.isNone_iff_eq_none] at hnone

theorem gather_error {e : SolveError} (h : r.gather o eqs = .error e) :
    e.IsConflict ∧ ¬ Coherent (r.heard o eqs) := by
  rw [coherent_heard]
  rcases exists_of_bind_error h with h | ⟨s₁, h₁, h⟩
  · obtain ⟨hconflict, hnot⟩ := strong_error h
    exact ⟨hconflict, fun k => hnot k.1⟩
  · obtain ⟨hnil, -, hstrong⟩ := strong_ok h₁
    obtain ⟨hconflict, hnot⟩ := weak_error hnil hstrong h
    exact ⟨hconflict, fun k => hnot k.2⟩

theorem solveInferred_eq_ok_iff {b : Bounds} {gs : Generics} {base : Nat} {i : Instantiation} :
    r.solveInferred b gs base eqs = .ok i ↔ ∃ s tys, r.gather ⟨base, gs⟩ eqs = .ok s ∧
      gs.Fills s.Reads base [] tys ∧ r.Satisfies b gs tys ∧ i = .ofTypes gs tys := by
  have htypes {s : Solution} {tys : List Ty} (h : gs.Fills s.Reads base [] tys) :
      (Instantiation.ofTypes gs tys).typeArgs = tys :=
    Instantiation.typeArgs_ofTypes (h.length.trans (Nat.zero_add _))
  rw [solveInferred_eq]
  constructor
  · intro h
    obtain ⟨s, hs, h⟩ := exists_of_bind_ok h
    obtain ⟨tys, htys, h⟩ := exists_of_bind_ok h
    obtain ⟨rfl, hsat⟩ := finish_eq_ok_iff.mp h
    have hfills := readBindings_eq_ok_iff.mp htys
    refine ⟨s, tys, hs, hfills, ?_, rfl⟩
    rw [← htypes hfills]
    exact hsat
  · rintro ⟨s, tys, hs, hfills, hsat, rfl⟩
    rw [hs]
    dsimp only [bind, Except.bind]
    rw [readBindings_eq_ok_iff.mpr hfills]
    refine finish_eq_ok_iff.mpr ⟨rfl, ?_⟩
    rw [htypes hfills]
    exact hsat

theorem exists_gather (h : Coherent (r.heard o eqs)) :
    ∃ s, r.gather o eqs = .ok s ∧ s.Gathers (r.heard o eqs) := by
  cases hs : r.gather o eqs with
  | error e => exact absurd h (gather_error hs).2
  | ok s => exact ⟨s, rfl, (gather_ok hs).2⟩

end Registry

end TypeFlow
