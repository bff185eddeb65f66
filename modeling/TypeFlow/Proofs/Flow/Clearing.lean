import TypeFlow.Flow.Stack
import TypeFlow.Proofs.Lists

namespace TypeFlow

theorem Path.startsWith_trans {p q b : Path} (h : p.startsWith q = true) (k : q.startsWith b = true) :
    p.startsWith b = true := by
  simp only [Path.startsWith, Bool.and_eq_true, beq_iff_eq, List.isPrefixOf_iff_prefix] at h k ⊢
  exact ⟨h.1.trans k.1, k.2.trans h.2⟩

namespace Layer

def Clear (p : Path) (l : Layer) : Prop := ∀ e ∈ l.entries, e.1.startsWith p = false

def within (p : Path) (l : Layer) : Layer := ⟨l.entries.filter fun e => e.1.startsWith p⟩

variable {r : Registry} {p q : Path} {l m : Layer} {f : FlowFact}

theorem clear_empty : ({} : Layer).Clear p := nofun

theorem clear_invalidate (l : Layer) (h : p.startsWith q = true) : (l.invalidate q).Clear p := by
  intro e he
  obtain ⟨-, hout⟩ := List.mem_filter.mp he
  cases hin : e.1.startsWith p with
  | false => rfl
  | true =>
    have hq := Path.startsWith_trans hin h
    simp [hq] at hout

theorem Clear.invalidate (h : l.Clear p) (q : Path) : (l.invalidate q).Clear p :=
  fun e he => h e (List.mem_filter.mp he).1

theorem Clear.erase (h : l.Clear p) (q : Path) : (l.erase q).Clear p :=
  fun e he => h e (List.mem_filter.mp he).1

theorem Clear.apply (h : l.Clear p) (k : f.path.startsWith p = false) : (l.apply r f).Clear p := by
  unfold Layer.apply Layer.set
  split
  · exact h.erase _
  · exact List.forall_mem_cons.mpr ⟨k, h.erase _⟩

theorem Clear.applyAll {fs : List FlowFact} (h : l.Clear p)
    (k : ∀ f ∈ fs, f.path.startsWith p = false) : (l.applyAll r fs).Clear p := by
  induction fs generalizing l with
  | nil => exact h
  | cons f fs ih => exact ih (h.apply (k f (by simp))) fun g hg => k g (by simp [hg])

theorem Clear.merge (h : l.Clear p) (m : Layer) : (l.merge r m).Clear p := by
  intro e he
  obtain ⟨d, hd, hmerge⟩ := List.mem_filterMap.mp he
  unfold Layer.mergeEntry at hmerge
  split at hmerge
  · cases hmerge
  · split at hmerge
    · split at hmerge
      · cases hmerge
      · cases hmerge
        exact h d hd
    · cases hmerge

theorem clear_iff_within : l.Clear p ↔ l.within p = {} := by
  unfold Clear within
  rw [Layer.mk.injEq, List.filter_eq_nil_iff]
  simp only [Bool.not_eq_true]

theorem within_erase : (l.erase q).within p = (l.within p).erase q := by
  simp only [within, erase, List.filter_filter, Layer.mk.injEq]
  exact List.filter_congr fun e _ => Bool.and_comm _ _

theorem within_erase_of_not (h : q.startsWith p = false) : (l.erase q).within p = l.within p := by
  simp only [within, erase, List.filter_filter, Layer.mk.injEq]
  refine List.filter_congr fun e _ => ?_
  by_cases heq : e.1 = q
  · simp [heq, h]
  · simp [heq]

theorem get_within (h : q.startsWith p = true) : (l.within p).get q = l.get q := by
  obtain ⟨es⟩ := l
  simp only [within, get]
  induction es with
  | nil => rfl
  | cons e es ih =>
    obtain ⟨d, n⟩ := e
    by_cases hd : d.startsWith p = true
    · simp only [List.filter_cons, hd, if_true, List.lookup_cons, ih]
    · have hne : (q == d) = false := by
        rw [beq_eq_false_iff_ne]
        rintro rfl
        exact hd h
      simp only [List.filter_cons, hd, List.lookup_cons, hne]
      exact ih

theorem within_apply (h : f.path.startsWith p = true) :
    (l.apply r f).within p = (l.within p).apply r f := by
  have hview : (l.within p).view f.path f.declared = l.view f.path f.declared := by
    simp only [view, get_within h]
  unfold Layer.apply Layer.set
  rw [hview]
  split
  · exact within_erase
  · have herase := congrArg Layer.entries (within_erase (p := p) (q := f.path) (l := l))
    simp only [within] at herase
    simp [within, h, herase]

theorem within_apply_of_not (h : f.path.startsWith p = false) :
    (l.apply r f).within p = l.within p := by
  unfold Layer.apply Layer.set
  split
  · exact within_erase_of_not h
  · have herase := congrArg Layer.entries (within_erase_of_not (l := l) h)
    simp only [within] at herase
    simp [within, h, herase]

theorem within_applyAll_congr (h : l.within p = m.within p) (fs : List FlowFact) :
    (l.applyAll r fs).within p = (m.applyAll r fs).within p := by
  induction fs generalizing l m with
  | nil => exact h
  | cons f fs ih =>
    refine ih ?_
    cases hf : f.path.startsWith p with
    | false => rw [within_apply_of_not hf, within_apply_of_not hf, h]
    | true => rw [within_apply hf, within_apply hf, h]

theorem clear_applyAll_iff (h : l.Clear p) (fs : List FlowFact) :
    (l.applyAll r fs).Clear p ↔ (({} : Layer).applyAll r fs).Clear p := by
  have hwithin : l.within p = ({} : Layer).within p := clear_iff_within.mp h
  rw [clear_iff_within, clear_iff_within, within_applyAll_congr hwithin]

end Layer

end TypeFlow
