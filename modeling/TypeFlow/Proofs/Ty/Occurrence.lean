import TypeFlow.Proofs.Decl.Outline
import TypeFlow.Ty.Subst

namespace TypeFlow.Ty

inductive Somewhere (P : Ty → Prop) : Ty → Prop
  | here {t : Ty} (h : P t) : Somewhere P t
  | under {t u : Ty} (hu : u ∈ t.parts) (h : Somewhere P u) : Somewhere P t

variable {P Q : Ty → Prop} {t u : Ty}

theorem everywhere_iff : t.Everywhere P ↔ P t ∧ ∀ u ∈ t.parts, u.Everywhere P :=
  ⟨fun h => ⟨h.node, fun _ => h.part⟩, fun h => .intro h.1 h.2⟩

theorem somewhere_iff : t.Somewhere P ↔ P t ∨ ∃ u ∈ t.parts, u.Somewhere P := by
  constructor
  · intro h
    cases h with
    | here ht => exact .inl ht
    | under hu hrest => exact .inr ⟨_, hu, hrest⟩
  · rintro (ht | ⟨u, hu, hrest⟩)
    · exact .here ht
    · exact .under hu hrest

theorem Somewhere.imp (h : t.Somewhere P) (hPQ : ∀ u, P u → Q u) : t.Somewhere Q := by
  induction h with
  | here ht => exact .here (hPQ _ ht)
  | under hu _ ih => exact .under hu ih

theorem Somewhere.exists (h : t.Somewhere P) : ∃ u, P u := by
  induction h with
  | here ht => exact ⟨_, ht⟩
  | under _ _ ih => exact ih

theorem not_somewhere_iff : ¬ t.Somewhere P ↔ t.Everywhere fun u => ¬ P u := by
  constructor
  · intro h
    induction t using parts_induction with
    | h t ih => exact .intro (fun ht => h (.here ht)) fun u hu => ih u hu fun k => h (.under hu k)
  · intro h k
    induction k with
    | here ht => exact h.node ht
    | under hu _ ih => exact ih (h.part hu)

abbrev ParamFree (t : Ty) : Prop := t.Everywhere fun u => ∀ x i, u ≠ .param x i

abbrev ParamsBelow (n : Nat) (t : Ty) : Prop := t.Everywhere fun u => ∀ x i, u = .param x i → i < n

def ownFlags : Ty → TypeFlags
  | error => { hasError := true }
  | untypedNone | untypedNil => { hasUntyped := true }
  | param .. => { hasParam := true }
  | var _ => { hasVar := true }
  | const _ => { hasConst := true }
  | _ => .empty

theorem meets_treeFlagsAll_iff {ts : List Ty} {mask : TypeFlags} :
    (treeFlagsAll ts).meets mask = true ↔ ∃ t ∈ ts, (treeFlags t).meets mask = true := by
  induction ts with
  | nil => simp [treeFlagsAll, TypeFlags.meets, TypeFlags.empty]
  | cons t ts ih => simp [treeFlagsAll, meets_union, ih]

theorem meets_treeFlags_iff {mask : TypeFlags} : (treeFlags t).meets mask = true ↔
    t.ownFlags.meets mask = true ∨ ∃ u ∈ t.parts, (treeFlags u).meets mask = true := by
  have hempty : TypeFlags.empty.meets mask = false := by simp [TypeFlags.meets, TypeFlags.empty]
  cases t <;>
    simp [treeFlags, ownFlags, parts, meets_union, meets_treeFlagsAll_iff, hempty, or_comm]

theorem meets_flags_iff {mask : TypeFlags} :
    t.flags.meets mask = true ↔ t.Somewhere fun u => u.ownFlags.meets mask = true := by
  rw [flags_eq_treeFlags]
  constructor
  · intro h
    induction t using parts_induction with
    | h t ih =>
      rcases meets_treeFlags_iff.mp h with hown | ⟨u, hu, hpart⟩
      · exact .here hown
      · exact .under hu (ih u hu hpart)
  · intro h
    induction h with
    | here hown => exact meets_treeFlags_iff.mpr (.inl hown)
    | under hu _ ih => exact meets_treeFlags_iff.mpr (.inr ⟨_, hu, ih⟩)

theorem not_meets_flags_iff {mask : TypeFlags} :
    t.flags.meets mask = false ↔ t.Everywhere fun u => ¬ u.ownFlags.meets mask = true := by
  rw [← not_somewhere_iff, ← meets_flags_iff, Bool.not_eq_true]

theorem meets_hasParam (f : TypeFlags) : f.meets { hasParam := true } = f.hasParam := by
  simp [TypeFlags.meets]

theorem meets_hasVar (f : TypeFlags) : f.meets { hasVar := true } = f.hasVar := by
  simp [TypeFlags.meets]

theorem hasParam_eq_false_iff : t.flags.hasParam = false ↔ t.ParamFree := by
  rw [← meets_hasParam, not_meets_flags_iff]
  refine ⟨fun h => h.imp fun _ hu x i heq => ?_, fun h => h.imp fun u hu => ?_⟩
  · subst heq
    exact hu rfl
  · cases u <;> first | exact Bool.false_ne_true | exact absurd rfl (hu _ _)

theorem hasVar_eq_false_iff : t.flags.hasVar = false ↔ t.VarFree := by
  rw [← meets_hasVar, not_meets_flags_iff]
  refine ⟨fun h => h.imp fun u hu i heq => ?_, fun h => h.imp fun u hu => ?_⟩
  · subst heq
    exact hu rfl
  · cases u <;> first | exact Bool.false_ne_true | exact absurd rfl (hu _)

theorem isClosed_iff : t.flags.isClosed = true ↔ t.VarFree ∧ t.ParamFree := by
  rw [← hasVar_eq_false_iff, ← hasParam_eq_false_iff]
  simp [TypeFlags.isClosed]

namespace ByHead

variable (hP : ByHead P)

include hP

theorem mkTuple_iff {ts : List Ty} : (mkTuple ts).Everywhere P ↔ ∀ t ∈ ts, t.Everywhere P := by
  refine ⟨fun h => ?_, hP.closed.mkTuple⟩
  match ts with
  | [] => exact nofun
  | [t] => exact List.forall_mem_singleton.mpr h
  | t :: u :: us => exact fun v => h.part

theorem ofMembers_iff {ts : List Ty} : (ofMembers ts).Everywhere P ↔ ∀ t ∈ ts, t.Everywhere P := by
  refine ⟨fun h => ?_, hP.closed.ofMembers⟩
  match ts with
  | [] => exact nofun
  | [t] => exact List.forall_mem_singleton.mpr h
  | t :: u :: us => exact fun v => h.part

theorem unionParts_iff : (∀ u ∈ t.unionParts, u.Everywhere P) ↔ t.Everywhere P := by
  refine ⟨fun h => ?_, fun h _ => hP.closed.unionParts h⟩
  cases t with
  | never => exact hP.closed.leaf rfl rfl
  | union ts => exact hP.closed.build rfl h
  | _ => exact h _ (List.mem_singleton.mpr rfl)

theorem mkUnion_iff {ts : List Ty} : (mkUnion ts).Everywhere P ↔ ∀ t ∈ ts, t.Everywhere P := by
  rw [mkUnion, hP.ofMembers_iff]
  simp only [mem_sorted, List.mem_flatMap, forall_exists_index, and_imp]
  exact ⟨fun h t ht => hP.unionParts_iff.mp fun u hu => h u t ht hu,
    fun h u t ht => hP.unionParts_iff.mpr (h t ht) u⟩

end ByHead

theorem byHead_paramsBelow (n : Nat) : ByHead fun u => ∀ x i, u = .param x i → i < n where
  structural h := by
    rintro x i rfl
    cases h
  named _ _ := nofun
  interface _ _ := nofun

theorem paramsBelow_param {x : String} {i n : Nat} (h : i < n) : (param x i).ParamsBelow n := by
  refine .intro ?_ nofun
  rintro x i ⟨⟩
  exact h

theorem byHead_varFree : ByHead fun u => ∀ i, u ≠ .var i where
  structural h := by
    rintro i rfl
    cases h
  named _ _ := nofun
  interface _ _ := nofun

theorem paramFree_iff : t.ParamFree ↔ t.ParamsBelow 0 :=
  ⟨fun h => h.imp fun _ hu x i heq => absurd heq (hu x i),
    fun h => h.imp fun _ hu x i heq => absurd (hu x i heq) (Nat.not_lt_zero i)⟩

theorem ParamFree.below (h : t.ParamFree) (n : Nat) : t.ParamsBelow n :=
  h.imp fun _ hu x i heq => absurd heq (hu x i)

theorem paramsBelow_iff {n : Nat} :
    t.ParamsBelow n ↔ (∀ x i, t = .param x i → i < n) ∧ ∀ u ∈ t.parts, u.ParamsBelow n := everywhere_iff

theorem substParams_of_not_hasParam (h : t.flags.hasParam = false) (args : List Ty) :
    t.substParams args = t := by
  unfold substParams
  split
  · rfl
  · unfold replace
    exact if_neg (by simp [meets_hasParam, h])

theorem substParams_param (args : List Ty) (x : String) (i : Nat) :
    (param x i).substParams args = args[i]?.getD (.param x i) := by
  cases args with
  | nil => rfl
  | cons b bs =>
    have hflags : (flags (.param x i)).meets { hasParam := true } = true := rfl
    rw [substParams, if_neg (by simp), replace.eq_def, if_pos hflags, paramLeaf]
    cases (b :: bs)[i]? <;> rfl

def isRigid : Ty → Bool
  | param .. | tuple _ | union _ => false
  | _ => true

theorem head_substParams (h : t.isRigid = true) (args : List Ty) : (t.substParams args).head = t.head := by
  unfold substParams
  split
  · rfl
  · rw [replace.eq_def]
    split
    · cases t <;> first | rfl | cases h
    · rfl

theorem parts_substParams (h : t.isRigid = true) (args : List Ty) :
    (t.substParams args).parts = t.parts.map (substParams args) := by
  by_cases hparam : t.flags.hasParam = true
  · unfold substParams
    split
    · exact (List.map_id _).symm
    · rw [replace.eq_def, if_pos ((meets_hasParam _).trans hparam)]
      cases t
      case param | tuple | union => cases h
      all_goals simp [paramLeaf, parts, replaceAll_eq_map]
  · rw [Bool.not_eq_true] at hparam
    rw [substParams_of_not_hasParam hparam]
    refine (List.map_id _).symm.trans (List.map_congr_left fun u hu => ?_)
    have hpart : u.flags.hasParam = false :=
      hasParam_eq_false_iff.mpr ((hasParam_eq_false_iff.mp hparam).part hu)
    exact (substParams_of_not_hasParam hpart args).symm

theorem substParams_interface (args : List Ty) (d : DeclId) (ts : List Ty) :
    ∃ us, (interface d ts).substParams args = interface d us :=
  ⟨ts.map (substParams args), eq_of_head_of_parts (head_substParams rfl args) (parts_substParams rfl args)⟩

section Rebuilt

variable {ts args : List Ty} (hargs : args ≠ [])

include hargs

theorem substParams_eq_replace : substParams args = replace { hasParam := true } (paramLeaf args) :=
  funext fun _ => if_neg (by simpa using hargs)

theorem substParams_tuple (h : (tuple ts).flags.hasParam = true) :
    (tuple ts).substParams args = mkTuple (ts.map (substParams args)) := by
  rw [substParams_eq_replace hargs, replace.eq_def, if_pos ((meets_hasParam _).trans h)]
  simp only [paramLeaf, replaceAll_eq_map]

theorem substParams_union (h : (union ts).flags.hasParam = true) :
    (union ts).substParams args = mkUnion (ts.map (substParams args)) := by
  rw [substParams_eq_replace hargs, replace.eq_def, if_pos ((meets_hasParam _).trans h)]
  simp only [paramLeaf, replaceAll_eq_map]

end Rebuilt

theorem VarFree.substParams {args : List Ty} (h : t.VarFree) (ha : ∀ a ∈ args, a.VarFree) :
    (t.substParams args).VarFree := byHead_varFree.substParams h ha

theorem paramFree_substParams_iff {args : List Ty} (ha : ∀ a ∈ args, a.ParamFree) :
    (t.substParams args).ParamFree ↔ t.ParamsBelow args.length := by
  by_cases hargs : args = []
  · subst hargs
    exact paramFree_iff
  induction t using parts_induction with
  | h t ih =>
    by_cases hparam : t.flags.hasParam = true
    · have hall : (∀ u ∈ t.parts.map (Ty.substParams args), u.ParamsBelow 0) ↔
          ∀ u ∈ t.parts, u.ParamsBelow args.length := by
        simp only [List.forall_mem_map, ← paramFree_iff]
        exact forall₂_congr ih
      rw [paramFree_iff, paramsBelow_iff (n := args.length), ← hall]
      cases t
      case param x i =>
        rw [substParams_param]
        cases hi : args[i]? with
        | none =>
          refine iff_of_false (fun h => absurd (h.node x i rfl) (Nat.not_lt_zero i)) fun h => ?_
          exact absurd (h.1 x i rfl) (Nat.not_lt.mpr (List.getElem?_eq_none_iff.mp hi))
        | some a =>
          refine iff_of_true (paramFree_iff.mp (ha a (List.mem_of_getElem? hi))) ⟨?_, nofun⟩
          rintro _ _ ⟨⟩
          exact (List.getElem?_eq_some_iff.mp hi).1
      case tuple ts =>
        rw [substParams_tuple hargs hparam]
        exact (byHead_paramsBelow 0).mkTuple_iff.trans (and_iff_right nofun).symm
      case union ts =>
        rw [substParams_union hargs hparam]
        exact (byHead_paramsBelow 0).mkUnion_iff.trans (and_iff_right nofun).symm
      all_goals
        rw [paramsBelow_iff, parts_substParams rfl]
        refine and_congr_left fun _ => iff_of_true (fun x i heq => ?_) nofun
        have hhead := (congrArg head heq).symm.trans (head_substParams rfl args)
        cases hhead
    · rw [Bool.not_eq_true] at hparam
      rw [substParams_of_not_hasParam hparam]
      have hfree := hasParam_eq_false_iff.mp hparam
      exact iff_of_true hfree (hfree.below _)

end TypeFlow.Ty
