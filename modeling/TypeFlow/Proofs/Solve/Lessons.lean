import TypeFlow.Proofs.Ty.Occurrence
import TypeFlow.Solve.Infer

namespace TypeFlow

def Ty.isSilent (t : Ty) : Bool := t.isError || t.isNever || t.isUntyped

def Solution.learn (o : Opening) (weak : Bool) (ls : List (Nat × Ty)) (s : Solution) :
    Except SolveError Solution :=
  ls.foldlM (fun s l => s.bind o weak l.1 l.2) s

theorem Solution.foldlM_eq_learn {α : Type} {o : Opening} {weak : Bool} {xs : List α}
    {step : Solution → α → Except SolveError Solution} {teach : α → List (Nat × Ty)}
    (h : ∀ x ∈ xs, ∀ s, step s x = s.learn o weak (teach x)) (s : Solution) :
    xs.foldlM step s = s.learn o weak (xs.flatMap teach) := by
  induction xs generalizing s with
  | nil => rfl
  | cons x xs ih =>
    rw [List.foldlM_cons, List.flatMap_cons, learn, List.foldlM_append, h x List.mem_cons_self]
    exact bind_congr fun s => ih (fun y hy => h y (List.mem_cons_of_mem _ hy)) s

namespace Registry

def align (r : Registry) (pattern actual : Ty) : List (Ty × Ty) :=
  match pattern with
  | .pointer _ p =>
    match actual with
    | .pointer _ a => [(p, a)]
    | _ => []
  | .reference _ p =>
    match actual with
    | .reference _ a => [(p, a)]
    | _ => []
  | .fixedArray _ p =>
    match actual with
    | .fixedArray _ a => [(p, a)]
    | _ => []
  | .dynArray p =>
    match actual with
    | .dynArray a => [(p, a)]
    | _ => []
  | .channel p =>
    match actual with
    | .channel a => [(p, a)]
    | _ => []
  | .map pk pv =>
    match actual with
    | .map ak av => [(pk, ak), (pv, av)]
    | _ => []
  | .tuple ps =>
    match actual with
    | .tuple as => if ps.length == as.length then ps.zip as else []
    | _ => []
  | .function ps _ pr =>
    match actual with
    | .function as _ ar => if ps.length == as.length then ps.zip as ++ [(pr, ar)] else []
    | _ => []
  | .named d ps =>
    match actual with
    | .named e as => if d == e then ps.zip as else []
    | _ => []
  | .interface d ps =>
    match actual with
    | .interface e as => if d == e then ps.zip as else []
    | .named .. => ps.zip ((r.interfaceArgs d actual).getD [])
    | _ => []
  | .option p =>
    match actual with
    | .option a => [(p, a)]
    | _ => [(p, actual)]
  | .result po pe =>
    match actual with
    | .result ao ae => [(po, ao), (pe, ae)]
    | _ => [(po, actual)]
  | _ => []

variable {r : Registry} {p a : Ty}

theorem mem_interfacesOf_of_interfaceArgs {d : DeclId} {as : List Ty} (h : r.interfaceArgs d a = some as) :
    .interface d as ∈ r.interfacesOf a := by
  obtain ⟨i, hi, hm⟩ := List.exists_of_findSome?_eq_some h
  split at hm
  · split at hm <;> cases hm
    next heq => exact eq_of_beq heq ▸ hi
  · cases hm

theorem mem_align {q : Ty × Ty} (h : q ∈ r.align p a) : q.1 ∈ p.parts ∧
    (q.2 = a ∨ q.2 ∈ a.parts ∨ ∃ d as, r.interfaceArgs d a = some as ∧ q.2 ∈ as) := by
  obtain ⟨u, v⟩ := q
  have hzip {ps as : List Ty} (hq : (u, v) ∈ ps.zip as) : u ∈ ps ∧ v ∈ as := List.of_mem_zip hq
  have hone {s t : Ty} (hq : (u, v) ∈ [(s, t)]) : u = s ∧ v = t := by simpa using hq
  have htwo {s t s' t' : Ty} (hq : (u, v) ∈ [(s, t), (s', t')]) : u ∈ [s, s'] ∧ v ∈ [t, t'] := by
    simp only [List.mem_cons, Prod.mk.injEq, List.not_mem_nil, or_false] at hq ⊢
    exact ⟨hq.imp And.left And.left, hq.imp And.right And.right⟩
  unfold align at h
  cases p <;> dsimp only at h
  case pointer | reference | fixedArray | dynArray | channel =>
    split at h
    · obtain ⟨rfl, rfl⟩ := hone h
      exact ⟨List.mem_singleton_self _, .inr (.inl (List.mem_singleton_self _))⟩
    · cases h
  case map =>
    split at h
    · exact ⟨(htwo h).1, .inr (.inl (htwo h).2)⟩
    · cases h
  case tuple | named =>
    split at h
    · split at h
      · exact ⟨(hzip h).1, .inr (.inl (hzip h).2)⟩
      · cases h
    · cases h
  case function ps w pr =>
    split at h
    · split at h
      · rcases List.mem_append.mp h with h | h
        · exact ⟨List.mem_cons_of_mem _ (hzip h).1, .inr (.inl (List.mem_cons_of_mem _ (hzip h).2))⟩
        · obtain ⟨rfl, rfl⟩ := hone h
          exact ⟨List.mem_cons_self, .inr (.inl List.mem_cons_self)⟩
      · cases h
    · cases h
  case interface d ps =>
    split at h
    · split at h
      · exact ⟨(hzip h).1, .inr (.inl (hzip h).2)⟩
      · cases h
    · next e as =>
      obtain ⟨hu, hv⟩ := hzip h
      cases hargs : r.interfaceArgs d (.named e as) with
      | none => simp [hargs] at hv
      | some bs => exact ⟨hu, .inr (.inr ⟨d, bs, hargs, by simpa [hargs] using hv⟩)⟩
    · cases h
  case option =>
    split at h
    · obtain ⟨rfl, rfl⟩ := hone h
      exact ⟨List.mem_singleton_self _, .inr (.inl (List.mem_singleton_self _))⟩
    · obtain ⟨rfl, rfl⟩ := hone h
      exact ⟨List.mem_singleton_self _, .inl rfl⟩
  case result =>
    split at h
    · exact ⟨(htwo h).1, .inr (.inl (htwo h).2)⟩
    · obtain ⟨rfl, rfl⟩ := hone h
      exact ⟨List.mem_cons_self, .inl rfl⟩
  all_goals cases h

def lessons (r : Registry) (pattern actual : Ty) : List (Nat × Ty) :=
  if actual.isSilent then []
  else
    match pattern with
    | .var v => [(v, actual)]
    | pattern => (r.align pattern actual).attach.flatMap fun q => lessons r q.1.1 q.1.2
termination_by sizeOf pattern
decreasing_by exact Ty.sizeOf_lt_of_mem_parts (mem_align q.2).1

theorem lessons_of_isSilent (ha : a.isSilent = true) : r.lessons p a = [] := by
  rw [lessons.eq_def, if_pos ha]

theorem lessons_var (ha : a.isSilent = false) (v : Nat) : r.lessons (.var v) a = [(v, a)] := by
  rw [lessons.eq_def, if_neg (by simp [ha])]

theorem lessons_eq (ha : a.isSilent = false) (hp : ∀ v, p ≠ .var v) :
    r.lessons p a = (r.align p a).flatMap fun q => r.lessons q.1 q.2 := by
  rw [lessons.eq_def, if_neg (by simp [ha])]
  split
  · next v => exact absurd rfl (hp v)
  · calc (r.align p a).attach.flatMap (fun q => r.lessons q.1.1 q.1.2)
        = (r.align p a).attach.unattach.flatMap fun q => r.lessons q.1 q.2 :=
          List.flatMap_subtype fun _ _ => rfl
      _ = (r.align p a).flatMap fun q => r.lessons q.1 q.2 := by rw [List.unattach_attach]

theorem mem_lessons {l : Nat × Ty} : l ∈ r.lessons p a ↔
    a.isSilent = false ∧ (p = .var l.1 ∧ l.2 = a ∨ ∃ q ∈ r.align p a, l ∈ r.lessons q.1 q.2) := by
  cases ha : a.isSilent with
  | true => simp [lessons_of_isSilent ha]
  | false =>
    by_cases hp : ∃ v, p = .var v
    · obtain ⟨v, rfl⟩ := hp
      rw [lessons_var ha, List.mem_singleton, Prod.ext_iff]
      simp [align, eq_comm]
    · have hnot : ∀ v, p ≠ .var v := fun v heq => hp ⟨v, heq⟩
      rw [lessons_eq ha hnot, List.mem_flatMap]
      simp [hnot]

theorem var_of_mem_lessons {l : Nat × Ty} (h : l ∈ r.lessons p a) : p.Somewhere (· = .var l.1) := by
  induction p using Ty.parts_induction generalizing a with
  | h p ih =>
    rcases (mem_lessons.mp h).2 with ⟨hp, -⟩ | ⟨q, hq, hl⟩
    · exact .here hp
    · have hpart := (mem_align hq).1
      exact .under hpart (ih q.1 hpart hl)

theorem lessons_of_varFree (h : p.VarFree) : r.lessons p a = [] := by
  refine List.eq_nil_iff_forall_not_mem.mpr fun l hl => ?_
  have hnone : ¬ p.Somewhere (· = .var l.1) := Ty.not_somewhere_iff.mpr (h.imp fun _ hu => hu l.1)
  exact hnone (var_of_mem_lessons hl)

theorem good_of_mem_lessons {good : Ty → Prop} (hpart : ∀ {t u}, good t → u ∈ t.parts → good u)
    (hargs : ∀ {d t as}, good t → r.interfaceArgs d t = some as → ∀ u ∈ as, good u) (ha : good a)
    {l : Nat × Ty} (h : l ∈ r.lessons p a) : good l.2 := by
  induction p using Ty.parts_induction generalizing a with
  | h p ih =>
    rcases (mem_lessons.mp h).2 with ⟨-, heq⟩ | ⟨q, hq, hl⟩
    · exact heq ▸ ha
    · obtain ⟨hp, hq⟩ := mem_align hq
      have hgood : good q.2 := by
        rcases hq with hq | hq | ⟨d, as, has, hq⟩
        · exact hq ▸ ha
        · exact hpart ha hq
        · exact hargs ha has _ hq
      exact ih q.1 hp hgood hl

variable {o : Opening} {weak : Bool}

theorem unifyAll_eq (ps as : List Ty) (s : Solution) : r.unifyAll o weak ps as s =
    (ps.zip as).foldlM (fun s q => r.unify o weak q.1 q.2 s) s := by
  induction ps generalizing as s with
  | nil => cases as <;> rfl
  | cons p ps ih =>
    cases as with
    | nil => rfl
    | cons a as =>
      rw [unifyAll, List.zip_cons_cons, List.foldlM_cons]
      exact bind_congr fun s => ih as s

theorem unify_eq_align {s : Solution} (hvar : p.flags.hasVar = true) (ha : a.isSilent = false)
    (hp : ∀ v, p ≠ .var v) :
    r.unify o weak p a s = (r.align p a).foldlM (fun s q => r.unify o weak q.1 q.2 s) s := by
  have hgo : ¬ ((!p.flags.hasVar || a.isError || a.isNever || a.isUntyped) = true) := by
    rw [hvar, Bool.not_true, Bool.false_or, ← Ty.isSilent, ha]
    nofun
  rw [unify.eq_def, if_neg hgo]
  unfold align
  cases p
  case var v => exact absurd rfl (hp v)
  case pointer | reference | fixedArray | dynArray | channel | option | map | result =>
    cases a <;> first | rfl | simp
  case tuple ps =>
    cases a
    case tuple as =>
      dsimp only
      split
      · exact unifyAll_eq _ _ s
      · rfl
    all_goals rfl
  case named d ps =>
    cases a
    case named e as =>
      dsimp only
      split
      · exact unifyAll_eq _ _ s
      · rfl
    all_goals rfl
  case function ps w pr =>
    cases a
    case function as w' ar =>
      dsimp only
      split
      · simp [unifyAll_eq]
      · rfl
    all_goals rfl
  case interface d ps =>
    cases a
    case interface e as =>
      dsimp only
      split
      · exact unifyAll_eq _ _ s
      · rfl
    case named e as =>
      dsimp only
      cases r.interfaceArgs d (.named e as) with
      | none => rw [Option.getD_none, List.zip_nil_right]; rfl
      | some bs => exact unifyAll_eq _ _ s
    all_goals rfl
  all_goals rfl

theorem unify_eq_learn (p a : Ty) (s : Solution) :
    r.unify o weak p a s = s.learn o weak (r.lessons p a) := by
  induction p using Ty.parts_induction generalizing a s with
  | h p ih =>
    by_cases hskip : (!p.flags.hasVar || a.isSilent) = true
    · have hnone : r.lessons p a = [] := by
        rcases Bool.or_eq_true_iff.mp hskip with hvar | ha
        · exact lessons_of_varFree (Ty.hasVar_eq_false_iff.mp (by simpa using hvar))
        · exact lessons_of_isSilent ha
      rw [hnone, unify.eq_def, if_pos (by simpa [Ty.isSilent, or_assoc] using hskip)]
      rfl
    obtain ⟨hvar, ha⟩ : p.flags.hasVar = true ∧ a.isSilent = false := by simpa using hskip
    by_cases hp : ∃ v, p = .var v
    · obtain ⟨v, rfl⟩ := hp
      rw [lessons_var ha, Solution.learn, List.foldlM_cons, unify.eq_def,
        if_neg (by simpa [Ty.isSilent, or_assoc] using hskip)]
      exact (bind_pure _).symm
    · have hnot : ∀ v, p ≠ .var v := fun v heq => hp ⟨v, heq⟩
      rw [unify_eq_align hvar ha hnot, lessons_eq ha hnot]
      exact s.foldlM_eq_learn fun q hq s => ih q.1 (mem_align hq).1 q.2 s

def lessonsOf (r : Registry) (o : Opening) (weak : Bool) (eqs : List Equation) : List (Nat × Ty) :=
  (eqs.filter (·.weak == weak)).flatMap fun eq => r.lessons (o.openTy eq.pattern) eq.actual

theorem unifyEqs_eq_learn (eqs : List Equation) (s : Solution) :
    r.unifyEqs o weak eqs s = s.learn o weak (r.lessonsOf o weak eqs) :=
  s.foldlM_eq_learn fun eq _ s => unify_eq_learn (o.openTy eq.pattern) eq.actual s

theorem mem_lessonsOf {eqs : List Equation} {l : Nat × Ty} : l ∈ r.lessonsOf o weak eqs ↔
    ∃ eq ∈ eqs, eq.weak = weak ∧ l ∈ r.lessons (o.openTy eq.pattern) eq.actual := by
  simp [lessonsOf, and_assoc]

end Registry

end TypeFlow
