import TypeFlow.Proofs.Ty.Canonical
import TypeFlow.Typing.Join

namespace TypeFlow

def JoinError.swap : JoinError → JoinError
  | .ambiguous is => .ambiguous is
  | .incompatible a b => .incompatible b a

namespace Ty

variable {ids : Ty → Nat} {t u : Ty} {ts us : List Ty}

theorem perm_insertById (ids : Ty → Nat) (t : Ty) (us : List Ty) : (insertById ids t us).Perm (t :: us) := by
  induction us with
  | nil => exact .refl _
  | cons u us ih =>
    unfold insertById
    split
    · exact .refl _
    · exact (ih.cons u).trans (.swap t u us)

theorem perm_sortById (ids : Ty → Nat) (ts : List Ty) : (sortById ids ts).Perm ts := by
  induction ts with
  | nil => exact .refl _
  | cons t ts ih => exact (perm_insertById ids t _).trans (ih.cons t)

end Ty

namespace Registry

variable {r : Registry} {ids : Ty → Nat} {a b c t : Ty}

theorem mem_commonInterfaces : t ∈ r.commonInterfaces a b ↔ t ∈ r.interfacesOf a ∧ t ∈ r.interfacesOf b := by
  rw [commonInterfaces, Ty.mem_sorted, List.mem_filter, List.contains_iff_mem]

theorem commonInterfaces_comm (r : Registry) (a b : Ty) : r.commonInterfaces b a = r.commonInterfaces a b :=
  Ty.sorted_congr fun t => by simp [and_comm]

theorem joinInterfaces_swap (r : Registry) (ids : Ty → Nat) (a b : Ty) :
    r.joinInterfaces ids b a = (r.joinInterfaces ids a b).mapError JoinError.swap := by
  unfold joinInterfaces
  rw [commonInterfaces_comm]
  split <;> rfl

theorem isUntyped_of_joinUntyped (h : joinUntyped a b = some t) : a.isUntyped = true ∧ b.isUntyped = false := by
  unfold joinUntyped at h
  split at h
  · cases h
  · next hb =>
    split at h
    · exact ⟨rfl, by simpa using hb⟩
    · exact ⟨rfl, by simpa using hb⟩
    · cases h

theorem or_joinUntyped_comm (a b : Ty) :
    (joinUntyped b a).or (joinUntyped a b) = (joinUntyped a b).or (joinUntyped b a) := by
  cases hab : joinUntyped a b with
  | none => rw [Option.or_none, Option.none_or]
  | some t =>
    cases hba : joinUntyped b a with
    | none => rfl
    | some u =>
      have htyped := (isUntyped_of_joinUntyped hab).2
      rw [(isUntyped_of_joinUntyped hba).1] at htyped
      cases htyped

theorem eq_option_of_optionInner (h : a.optionInner = some b) : a = .option b := by
  cases a <;> cases h
  rfl

theorem optionInner_ne (h : a.optionInner = some b) : b.optionInner ≠ some a := by
  intro k
  cases eq_option_of_optionInner h
  have hsize := congrArg sizeOf (eq_option_of_optionInner k)
  simp only [Ty.option.sizeOf_spec] at hsize
  omega

theorem join_swap (r : Registry) (ids : Ty → Nat) (a b : Ty) :
    r.join ids b a = (r.join ids a b).mapError JoinError.swap := by
  unfold join
  rw [Bool.or_comm b.isError, or_joinUntyped_comm a b]
  by_cases herror : (a.isError || b.isError) = true
  · rw [if_pos herror, if_pos herror]
    rfl
  rw [if_neg herror, if_neg herror]
  by_cases heq : a = b
  · subst heq
    rw [if_pos (beq_self_eq_true a)]
    rfl
  simp only [beq_false_of_ne heq, beq_false_of_ne (Ne.symm heq), Bool.false_eq_true, if_false]
  cases ha : a.isNever with
  | true =>
    cases hb : b.isNever with
    | true => exact absurd ((Ty.eq_never_of_isNever ha).trans (Ty.eq_never_of_isNever hb).symm) heq
    | false => rfl
  | false =>
    cases hb : b.isNever with
    | true => rfl
    | false =>
      simp only [Bool.false_eq_true, if_false]
      cases (joinUntyped a b).or (joinUntyped b a) with
      | some t => rfl
      | none =>
        dsimp only
        by_cases hab : (a.optionInner == some b) = true
        · have hba : ¬ (b.optionInner == some a) = true := by simpa using optionInner_ne (eq_of_beq hab)
          rw [if_pos hab, if_neg hba, if_pos hab]
          rfl
        · rw [if_neg hab, if_neg hab]
          split
          · rfl
          · exact joinInterfaces_swap r ids a b

theorem join_cases (r : Registry) (a b : Ty) :
    (∃ t, ∀ ids, r.join ids a b = .ok t) ∨ ∀ ids, r.join ids a b = r.joinInterfaces ids a b := by
  unfold join
  iterate 7
    split
    · exact .inl ⟨_, fun _ => rfl⟩
  exact .inr fun _ => rfl

theorem joinInterfaces_of_error {e : JoinError} (h : r.join ids a b = .error e) :
    r.joinInterfaces ids a b = .error e := by
  rcases r.join_cases a b with ⟨t, hjoin⟩ | hjoin
  · cases (hjoin ids).symm.trans h
  · rw [← hjoin, h]

theorem eq_of_ambiguous {is : List Ty} (h : r.join ids a b = .error (.ambiguous is)) :
    Ty.sortById ids (r.commonInterfaces a b) = is := by
  have hfailed := joinInterfaces_of_error h
  unfold joinInterfaces at hfailed
  split at hfailed
  · cases hfailed
  · cases hfailed
  · exact JoinError.ambiguous.inj (Except.error.inj hfailed)

theorem join_comm (r : Registry) (ids : Ty → Nat) (a b : Ty) :
    r.join ids b a = (r.join ids a b).mapError JoinError.swap ∧
      ∀ is, r.join ids a b = .error (.ambiguous is) →
        r.join ids b a = .error (.ambiguous is) ∧ is.Nodup ∧
          ∀ i, i ∈ is ↔ i ∈ r.interfacesOf a ∧ i ∈ r.interfacesOf b := by
  refine ⟨join_swap r ids a b, fun is h => ?_⟩
  obtain rfl := eq_of_ambiguous h
  have hperm := Ty.perm_sortById ids (r.commonInterfaces a b)
  refine ⟨?_, hperm.nodup_iff.mpr (Ty.nodup_sorted _), fun i => hperm.mem_iff.trans mem_commonInterfaces⟩
  rw [join_swap, h]
  rfl

def streams : Registry where
  decls := [⟨"Show", [], .interface false [2, 3, 4], {}⟩,
    ⟨"Sink", [⟨"T", 0, .type [] none⟩], .interface false [2, 3], {}⟩,
    ⟨"Pipe", [⟨"T", 0, .type [] none⟩],
      .struct [] [.interface 1 [.param "T" 0], .interface 0 [], .interface 1 [.param "T" 0]], {}⟩,
    ⟨"Log", [], .struct [] [.interface 1 [.prim .string], .interface 0 []], {}⟩,
    ⟨"Clock", [], .struct [] [.interface 0 []], {}⟩]

def streamIds : Ty → Nat
  | .interface 1 [.prim .string] => 20
  | _ => 21

theorem join_comm_pipe_log :
    streams.join streamIds (.named 2 [.prim .string]) (.named 3 []) =
        .error (.ambiguous [.interface 1 [.prim .string], .interface 0 []]) ∧
      streams.join streamIds (.named 3 []) (.named 2 [.prim .string]) =
        .error (.ambiguous [.interface 1 [.prim .string], .interface 0 []]) := by
  have hjoin : streams.join streamIds (.named 2 [.prim .string]) (.named 3 []) =
      .error (.ambiguous [.interface 1 [.prim .string], .interface 0 []]) := by rfl
  exact ⟨hjoin, ((join_comm _ _ _ _).2 _ hjoin).1⟩

end Registry

end TypeFlow
