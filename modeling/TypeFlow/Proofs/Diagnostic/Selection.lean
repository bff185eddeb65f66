import Mathlib.Data.Prod.Lex
import Mathlib.Data.List.Induction
import TypeFlow.Proofs.Diagnostic.Accepting

namespace TypeFlow

namespace Diagnostic

structure Agrees (d e : Diagnostic) : Prop where
  code : d.code = e.code
  place : d.primarySpan = e.primarySpan
  message : d.message = e.message

theorem key_eq_iff {d e : Diagnostic} : d.key = e.key ↔ d.Agrees e := by
  simp only [key, Prod.mk.injEq]
  exact ⟨fun ⟨hcode, hplace, hmessage⟩ => ⟨hcode, hplace, hmessage⟩,
    fun ⟨hcode, hplace, hmessage⟩ => ⟨hcode, hplace, hmessage⟩⟩

def rank (d : Diagnostic) : ℕ ×ₗ ℕ :=
  match d.primarySpan with
  | some s => toLex (s.start.toNat, s.stop.toNat)
  | none => toLex (4294967295, 4294967295)

theorem rank_eq (d : Diagnostic) : d.rank = toLex (d.sortKey.1.toNat, d.sortKey.2.toNat) := by
  unfold rank sortKey
  cases d.primarySpan <;> rfl

theorem sortLE_iff {d e : Diagnostic} : d.sortLE e ↔ d.rank ≤ e.rank := by
  rw [rank_eq, rank_eq, Prod.Lex.toLex_le_toLex]
  simp [sortLE, UInt32.lt_iff_toNat_lt, UInt32.le_iff_toNat_le, UInt32.toNat_inj]

theorem sortLE_trans (a b d : Diagnostic) (hab : a.sortLE b) (hbd : b.sortLE d) : a.sortLE d := by
  rw [sortLE_iff] at hab hbd ⊢
  exact hab.trans hbd

theorem sortLE_total (a b : Diagnostic) : a.sortLE b || b.sortLE a := by
  rw [Bool.or_eq_true, sortLE_iff, sortLE_iff]
  exact le_total _ _

end Diagnostic

structure QueueConfig.Admits (c : QueueConfig) (kept : List Diagnostic) (d : Diagnostic) : Prop where
  room : ¬ (d.isError ∧ 0 < c.errorLimit ∧ kept.countP (·.isError) = c.errorLimit)
  new : c.deduplicate → ∀ e ∈ kept, ¬ e.Agrees d

namespace DiagnosticQueue

variable {q : DiagnosticQueue} {c : QueueConfig} {d : Diagnostic} {ds : List Diagnostic}

def answers (q : DiagnosticQueue) : List Diagnostic → List Bool
  | [] => []
  | d :: ds => q.accepts d :: (q.add d).answers ds

def kept (q : DiagnosticQueue) (ds : List Diagnostic) : List Diagnostic :=
  ((ds.zip (q.answers ds)).filter (·.2)).map (·.1)

theorem addAll_append (q : DiagnosticQueue) (ds es : List Diagnostic) :
    q.addAll (ds ++ es) = (q.addAll ds).addAll es := List.foldl_append

theorem length_answers (q : DiagnosticQueue) (ds : List Diagnostic) : (q.answers ds).length = ds.length := by
  induction ds generalizing q with
  | nil => rfl
  | cons d ds ih => exact congrArg Nat.succ (ih _)

theorem answers_append (q : DiagnosticQueue) (ds es : List Diagnostic) :
    q.answers (ds ++ es) = q.answers ds ++ (q.addAll ds).answers es := by
  induction ds generalizing q with
  | nil => rfl
  | cons d ds ih => exact congrArg (q.accepts d :: ·) (ih _)

theorem accepted_addAll (q : DiagnosticQueue) (ds : List Diagnostic) :
    (q.addAll ds).accepted = q.accepted ++ q.kept ds := by
  induction ds generalizing q with
  | nil => exact (List.append_nil _).symm
  | cons d ds ih =>
    rw [addAll_cons, ih, kept, kept, answers, List.zip_cons_cons]
    by_cases hd : q.accepts d
    · simp [add_of_accepts hd, hd]
    · simp [add_of_not_accepts hd, hd]

theorem accepted_fresh (c : QueueConfig) (ds : List Diagnostic) :
    (addAll { config := c } ds).accepted = kept { config := c } ds := accepted_addAll _ ds

theorem Tight.accepts_iff_admits (h : q.Tight) : q.accepts d ↔ q.config.Admits q.accepted d := by
  rw [accepts_iff]
  have hroom : (d.isError → ¬ q.limitReached) ↔
      ¬ (d.isError ∧ 0 < q.config.errorLimit ∧ q.accepted.countP (·.isError) = q.config.errorLimit) := by
    rw [limitReached_iff, ← not_and]
    refine not_congr (and_congr_right fun _ => and_congr_right fun hlimit => ?_)
    exact ⟨(h.limited hlimit).antisymm, fun heq => heq.ge⟩
  have hnew : d.key ∉ q.keys ↔ ∀ e ∈ q.accepted, ¬ e.Agrees d := by
    simp only [keys, List.mem_map, not_exists, not_and, Diagnostic.key_eq_iff]
  exact ⟨fun hd => ⟨hroom.mp hd.1, fun hdedup => hnew.mp (hd.2 hdedup)⟩,
    fun hd => ⟨hroom.mpr hd.room, fun hdedup => hnew.mpr (hd.new hdedup)⟩⟩

theorem answer_iff (c : QueueConfig) (before : List Diagnostic) (d : Diagnostic) (after : List Diagnostic) :
    (answers { config := c } (before ++ d :: after))[before.length]? = some true ↔
      c.Admits (kept { config := c } before) d := by
  have htight := (tight_empty c).addAll before
  rw [answers_append, List.getElem?_append_right (length_answers _ before).le, length_answers, Nat.sub_self,
    answers, List.getElem?_cons_zero, Option.some.injEq, htight.accepts_iff_admits, config_addAll,
    accepted_fresh]

theorem accepted_take (hds : ∀ d ∈ ds, d.isError) (hlimit : 0 < c.errorLimit) :
    (addAll { config := c } ds).accepted =
      (addAll { config := { c with errorLimit := 0 } } ds).accepted.take c.errorLimit := by
  induction ds using List.reverseRecOn with
  | nil => exact List.take_nil.symm
  | append_singleton ds d ih =>
    obtain ⟨hds, hlast⟩ := List.forall_mem_append.mp hds
    have hd : d.isError := hlast d (List.mem_singleton_self d)
    have hcount := errorCount_addAll (c := c) hds
    replace ih := ih hds
    rw [addAll_append, addAll_append]
    simp only [addAll_cons, addAll_nil]
    have hfree : ¬ (addAll { config := { c with errorLimit := 0 } } ds).limitReached := by
      simp [limitReached_iff]
    generalize hlimited : addAll { config := c } ds = q at ih hcount
    generalize hunlimited : addAll { config := { c with errorLimit := 0 } } ds = r at ih hfree
    have hq : q.config = c := by rw [← hlimited, config_addAll]
    have hr : r.config = { c with errorLimit := 0 } := by rw [← hunlimited, config_addAll]
    rcases Nat.lt_or_ge r.accepted.length c.errorLimit with hlt | hge
    · rw [List.take_of_length_le hlt.le] at ih
      have hroom : ¬ q.limitReached := by
        rw [limitReached_iff, hcount, ih, hq]
        omega
      have hsame : q.accepts d ↔ r.accepts d := by
        simp [accepts_iff, hq, hr, keys, ih, hroom, hfree]
      by_cases haccepts : r.accepts d
      · rw [add_of_accepts haccepts, add_of_accepts (hsame.mpr haccepts), ih, List.take_of_length_le]
        simpa using Nat.succ_le_of_lt hlt
      · rw [add_of_not_accepts haccepts, add_of_not_accepts (mt hsame.mp haccepts), ih,
          List.take_of_length_le hlt.le]
    · have hfull : q.limitReached := by
        rw [limitReached_iff, hcount, ih, hq, List.length_take, Nat.min_eq_left hge]
        exact ⟨hlimit, le_rfl⟩
      rw [add_of_not_accepts fun haccepts => (accepts_iff.mp haccepts).1 hd hfull, ih]
      obtain ⟨taken, -, hgrows⟩ := exists_accepted_addAll r [d]
      rw [addAll_cons, addAll_nil] at hgrows
      rw [hgrows, List.take_append_of_le_length hge]

theorem pairwise_flush (q : DiagnosticQueue) : q.flush.1.Pairwise fun d e => d.rank ≤ e.rank :=
  (List.pairwise_mergeSort Diagnostic.sortLE_trans Diagnostic.sortLE_total q.accepted).imp
    Diagnostic.sortLE_iff.mp

theorem filter_flush (q : DiagnosticQueue) (k : ℕ ×ₗ ℕ) :
    q.flush.1.filter (·.rank = k) = q.accepted.filter (·.rank = k) := by
  have hsorted : (q.accepted.filter (·.rank = k)).Pairwise fun d e => d.sortLE e = true := by
    refine List.pairwise_of_forall_mem_list fun d hd e he => Diagnostic.sortLE_iff.mpr ?_
    rw [of_decide_eq_true (List.mem_filter.mp hd).2, of_decide_eq_true (List.mem_filter.mp he).2]
  have hsub : (q.accepted.filter (·.rank = k)).Sublist q.flush.1 :=
    List.sublist_mergeSort Diagnostic.sortLE_trans Diagnostic.sortLE_total hsorted List.filter_sublist
  have hlength : (q.flush.1.filter (·.rank = k)).length = (q.accepted.filter (·.rank = k)).length :=
    ((List.mergeSort_perm _ _).filter _).length_eq
  refine (List.Sublist.eq_of_length ?_ hlength.symm).symm
  simpa using hsub.filter (·.rank = k)

-- Each diagnostic of a stream is judged by what was kept before it. A flush gives what was kept, by place,
-- and in the order of arrival where places agree. A limit cuts a stream of errors off, and the queue that is
-- left behind is a fresh one.
theorem selects (c : QueueConfig) (ds : List Diagnostic) :
    let fresh : DiagnosticQueue := { config := c }
    let unlimited : DiagnosticQueue := { config := { c with errorLimit := 0 } }
    let flushed := (fresh.addAll ds).flush
    (∀ before d after, ds = before ++ d :: after →
      ((fresh.answers ds)[before.length]? = some true ↔ c.Admits (fresh.kept before) d)) ∧
    flushed.1.Perm (fresh.kept ds) ∧ flushed.1.Pairwise (fun d e => d.rank ≤ e.rank) ∧
    (∀ k, flushed.1.filter (·.rank = k) = (fresh.kept ds).filter (·.rank = k)) ∧
    ((∀ d ∈ ds, d.isError) → 0 < c.errorLimit →
      fresh.kept ds = (unlimited.kept ds).take c.errorLimit) ∧
    flushed.2 = fresh := by
  intro fresh unlimited flushed
  have hkept : (fresh.addAll ds).accepted = fresh.kept ds := accepted_fresh c ds
  refine ⟨?_, ?_, pairwise_flush _, fun k => ?_, fun hds hlimit => ?_, ?_⟩
  · rintro before d after rfl
    exact answer_iff c before d after
  · exact hkept ▸ List.mergeSort_perm _ _
  · rw [← hkept]
    exact filter_flush _ k
  · rw [← hkept, accepted_take hds hlimit, accepted_fresh]
  · exact congrArg (fun c => ({ config := c } : DiagnosticQueue)) (config_addAll fresh ds)

-- Of four errors, one of them repeated, a queue with a limit of two keeps the first two that differ.
theorem selects_two_of_four :
    let mismatch (place : UInt32) (message : String) : Diagnostic :=
      { code := .typeMismatch, message := message, labels := [{ span := .point place, message := "" }] }
    let ds := [mismatch 30 "c", mismatch 30 "c", mismatch 10 "a", mismatch 20 "b"]
    let limited : DiagnosticQueue := { config := { errorLimit := 2 } }
    (∀ d ∈ ds, d.isError) ∧ 0 < limited.config.errorLimit ∧
      ds = [mismatch 30 "c"] ++ mismatch 30 "c" :: [mismatch 10 "a", mismatch 20 "b"] ∧
      ¬ limited.config.Admits (limited.kept [mismatch 30 "c"]) (mismatch 30 "c") ∧
      limited.kept ds = [mismatch 30 "c", mismatch 10 "a", mismatch 20 "b"].take 2 := by
  intro mismatch ds limited
  have hstream : ∀ d ∈ ds, d.isError := by decide
  have hselects := selects limited.config ds
  refine ⟨hstream, by decide, rfl, fun hadmits => ?_, ?_⟩
  · exact absurd ((hselects.1 [mismatch 30 "c"] _ _ rfl).mpr hadmits) (by decide)
  · exact hselects.2.2.2.2.1 hstream (by decide)

end DiagnosticQueue

end TypeFlow
