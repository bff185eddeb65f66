import TypeFlow.Proofs.Decl.Outline
import TypeFlow.Ty.Subst

namespace TypeFlow

theorem dictLe_map {α : Type} [DecidableEq α] {le : α → α → Bool} {f : α → α}
    (hf : ∀ {a b}, f a = f b → a = b) {as bs : List α} (h : ∀ a ∈ as, ∀ b, le (f a) (f b) = le a b) :
    dictLe le (as.map f) (bs.map f) = dictLe le as bs := by
  induction as generalizing bs with
  | nil => rfl
  | cons a as ih =>
    cases bs with
    | nil => rfl
    | cons b bs =>
      have hrest : dictLe le (as.map f) (bs.map f) = dictLe le as bs :=
        ih fun c hc => h c (List.mem_cons_of_mem _ hc)
      have hiff : f a = f b ↔ a = b := ⟨hf, congrArg f⟩
      simp only [List.map_cons, dictLe, leCons, hiff, hrest, h a List.mem_cons_self b]

namespace Ty

mutual

def shift (k : Nat) : Ty → Ty
  | var i => var (i + k)
  | pointer m t => pointer m (shift k t)
  | reference m t => reference m (shift k t)
  | fixedArray n t => fixedArray n (shift k t)
  | dynArray t => dynArray (shift k t)
  | map s t => map (shift k s) (shift k t)
  | tuple ts => tuple (shiftAll k ts)
  | function ps v r => function (shiftAll k ps) v (shift k r)
  | option t => option (shift k t)
  | result s t => result (shift k s) (shift k t)
  | channel t => channel (shift k t)
  | named d ts => named d (shiftAll k ts)
  | interface d ts => interface d (shiftAll k ts)
  | union ts => union (shiftAll k ts)
  | t => t

def shiftAll (k : Nat) : List Ty → List Ty
  | [] => []
  | t :: ts => shift k t :: shiftAll k ts

end

variable {k : Nat} {s t : Ty} {ts : List Ty}

theorem shiftAll_eq_map (k : Nat) (ts : List Ty) : shiftAll k ts = ts.map (shift k) := by
  induction ts with
  | nil => rfl
  | cons t ts ih => rw [shiftAll, ih, List.map_cons]

theorem parts_shift (k : Nat) (t : Ty) : (t.shift k).parts = t.parts.map (shift k) := by
  cases t <;> simp [shift, parts, shiftAll_eq_map]

def isVar : Ty → Bool
  | var _ => true
  | _ => false

theorem head_shift (h : t.isVar = false) : (t.shift k).head = t.head := by
  cases t <;> first | rfl | cases h

theorem exists_eq_var (h : t.isVar = true) : ∃ i, t = .var i := by
  cases t
  case var i => exact ⟨i, rfl⟩
  all_goals cases h

theorem head_ne_var (h : t.isVar = false) : ∃ n w, t.head = n :: w ∧ n ≠ 7 := by
  cases t
  case var => cases h
  all_goals exact ⟨_, _, rfl, by decide⟩

theorem head_eq_shift_iff : (s.shift k).head = (t.shift k).head ↔ s.head = t.head := by
  cases hs : s.isVar <;> cases ht : t.isVar
  · rw [head_shift hs, head_shift ht]
  · obtain ⟨n, w, hn, hne⟩ := head_ne_var hs
    obtain ⟨i, rfl⟩ := exists_eq_var ht
    rw [head_shift hs, hn]
    simp [shift, head, hne]
  · obtain ⟨n, w, hn, hne⟩ := head_ne_var ht
    obtain ⟨i, rfl⟩ := exists_eq_var hs
    rw [head_shift ht, hn]
    simp [shift, head, hne.symm]
  · obtain ⟨i, rfl⟩ := exists_eq_var hs
    obtain ⟨j, rfl⟩ := exists_eq_var ht
    simp [shift, head]

theorem wordLe_shift : wordLe (s.shift k).head (t.shift k).head = wordLe s.head t.head := by
  cases hs : s.isVar <;> cases ht : t.isVar
  · rw [head_shift hs, head_shift ht]
  · obtain ⟨n, w, hn, hne⟩ := head_ne_var hs
    obtain ⟨i, rfl⟩ := exists_eq_var ht
    rw [head_shift hs, hn]
    simp [shift, head, wordLe, dictLe, leCons, hne]
  · obtain ⟨n, w, hn, hne⟩ := head_ne_var ht
    obtain ⟨i, rfl⟩ := exists_eq_var hs
    rw [head_shift ht, hn]
    simp [shift, head, wordLe, dictLe, leCons, hne.symm]
  · obtain ⟨i, rfl⟩ := exists_eq_var hs
    obtain ⟨j, rfl⟩ := exists_eq_var ht
    have hble : Nat.ble (i + k) (j + k) = Nat.ble i j := by
      rw [Bool.eq_iff_iff, Nat.ble_eq, Nat.ble_eq]
      omega
    simp [shift, head, wordLe, dictLe, leCons, hble]

theorem shift_injective (h : s.shift k = t.shift k) : s = t := by
  induction s using parts_induction generalizing t with
  | h s ih =>
    refine eq_of_head_of_parts (head_eq_shift_iff.mp (congrArg head h)) ?_
    have hparts := congrArg parts h
    rw [parts_shift, parts_shift] at hparts
    refine List.ext_getElem? fun i => ?_
    have hi := congrArg (·[i]?) hparts
    simp only [List.getElem?_map] at hi
    cases hs : s.parts[i]? <;> cases ht : t.parts[i]? <;> simp only [hs, ht, Option.map] at hi
    · rfl
    · cases hi
    · cases hi
    · rw [ih _ (List.mem_of_getElem? hs) (Option.some.inj hi)]

theorem le_shift (k : Nat) (s t : Ty) : le (s.shift k) (t.shift k) = le s t := by
  induction s using parts_induction generalizing t with
  | h s ih =>
    rw [le_eq, le_eq s t]
    simp only [head_eq_shift_iff, wordLe_shift, parts_shift]
    rw [dictLe_map shift_injective ih]

theorem shift_insertSorted (t : Ty) (us : List Ty) :
    (insertSorted t us).map (shift k) = insertSorted (t.shift k) (us.map (shift k)) := by
  induction us with
  | nil => rfl
  | cons u us ih =>
    have hiff : t.shift k = u.shift k ↔ t = u := ⟨shift_injective, congrArg _⟩
    simp only [insertSorted, List.map_cons, hiff, le_shift]
    split
    · rfl
    · split
      · rfl
      · rw [List.map_cons, ih]

theorem shift_sorted (ts : List Ty) : (sorted ts).map (shift k) = sorted (ts.map (shift k)) := by
  induction ts with
  | nil => rfl
  | cons t ts ih =>
    calc (sorted (t :: ts)).map (shift k)
        = insertSorted (t.shift k) ((sorted ts).map (shift k)) := shift_insertSorted t _
      _ = sorted ((t :: ts).map (shift k)) := by rw [ih]; rfl

theorem unionParts_shift (t : Ty) : (t.shift k).unionParts = t.unionParts.map (shift k) := by
  cases t <;> simp [shift, unionParts, shiftAll_eq_map]

theorem shift_ofMembers (ts : List Ty) : (ofMembers ts).shift k = ofMembers (ts.map (shift k)) := by
  match ts with
  | [] => rfl
  | [t] => rfl
  | t :: u :: us => simp [ofMembers, shift, shiftAll_eq_map]

theorem shift_mkUnion (ts : List Ty) : (mkUnion ts).shift k = mkUnion (ts.map (shift k)) := by
  have hparts : (ts.flatMap unionParts).map (shift k) = (ts.map (shift k)).flatMap unionParts := by
    rw [List.map_flatMap, List.flatMap_map]
    exact congrArg (ts.flatMap ·) (funext fun t => (unionParts_shift t).symm)
  rw [mkUnion, mkUnion, shift_ofMembers, shift_sorted, hparts]

theorem shift_mkTuple (ts : List Ty) : (mkTuple ts).shift k = mkTuple (ts.map (shift k)) := by
  match ts with
  | [] => rfl
  | [t] => rfl
  | t :: u :: us => simp [mkTuple, shift, shiftAll_eq_map]

mutual

theorem treeFlags_shift : (t : Ty) → treeFlags (t.shift k) = treeFlags t
  | var _ | prim _ | unit | never | error | untypedNone | untypedNil | param .. | const _ => rfl
  | pointer _ t | reference _ t | fixedArray _ t | dynArray t | option t | channel t => treeFlags_shift t
  | map s t | result s t => by simp [shift, treeFlags, treeFlags_shift s, treeFlags_shift t]
  | tuple ts | union ts | named _ ts | interface _ ts => treeFlagsAll_shift ts
  | function ps _ r => by simp [shift, treeFlags, treeFlagsAll_shift ps, treeFlags_shift r]

theorem treeFlagsAll_shift : (ts : List Ty) → treeFlagsAll (shiftAll k ts) = treeFlagsAll ts
  | [] => rfl
  | t :: ts => by simp [shiftAll, treeFlagsAll, treeFlags_shift t, treeFlagsAll_shift ts]

end

theorem flags_shift (t : Ty) : (t.shift k).flags = t.flags := by
  rw [flags_eq_treeFlags, flags_eq_treeFlags, treeFlags_shift]

theorem shift_replace {mask : TypeFlags} {leaf leaf' : Ty → Option Ty}
    (h : ∀ t, leaf' (t.shift k) = (leaf t).map (shift k)) (t : Ty) :
    (t.replace mask leaf).shift k = (t.shift k).replace mask leaf' := by
  induction t using parts_induction with
  | h t ih =>
    have hall (ts : List Ty) (hts : ∀ u ∈ ts, u ∈ t.parts) :
        shiftAll k (replaceAll mask leaf ts) = replaceAll mask leaf' (shiftAll k ts) := by
      simp only [shiftAll_eq_map, replaceAll_eq_map, List.map_map]
      exact List.map_congr_left fun u hu => ih u (hts u hu)
    rw [replace.eq_def mask leaf t, replace.eq_def mask leaf' (t.shift k), flags_shift, h]
    split
    · cases hleaf : leaf t with
      | some u => rfl
      | none =>
        cases t with
        | tuple ts =>
          have hts := hall ts fun _ => id
          simp only [shift, Option.map_none, shift_mkTuple, ← shiftAll_eq_map, hts]
        | union ts =>
          have hts := hall ts fun _ => id
          simp only [shift, Option.map_none, shift_mkUnion, ← shiftAll_eq_map, hts]
        | function ps v r =>
          have hps := hall ps fun u hu => by simp [parts, hu]
          have hr := ih r (by simp [parts])
          simp only [shift, Option.map_none, hps, hr]
        | named d ts | interface d ts =>
          have hts := hall ts fun _ => id
          simp only [shift, Option.map_none, hts]
        | map s t | result s t =>
          have hs := ih s (by simp [parts])
          have ht := ih t (by simp [parts])
          simp only [shift, Option.map_none, hs, ht]
        | pointer _ t | reference _ t | fixedArray _ t | dynArray t | option t | channel t =>
          have ht := ih t (by simp [parts])
          simp only [shift, Option.map_none, ht]
        | _ => rfl
    · rfl

theorem shift_substParams (args : List Ty) (t : Ty) :
    (t.substParams args).shift k = (t.shift k).substParams (args.map (shift k)) := by
  unfold substParams
  rw [List.isEmpty_map]
  split
  · rfl
  · refine shift_replace (fun t => ?_) t
    cases t <;> simp [paramLeaf, shift]

theorem VarFree.shift (h : t.VarFree) (k : Nat) : t.shift k = t := by
  induction h with
  | @intro t here below ih =>
    have hvar : t.isVar = false := by
      rw [← Bool.not_eq_true]
      intro h
      obtain ⟨i, hi⟩ := exists_eq_var h
      exact here i hi
    refine eq_of_head_of_parts (head_shift hvar) ?_
    rw [parts_shift]
    exact (List.map_congr_left ih).trans (List.map_id _)

end Ty

end TypeFlow
