import TypeFlow.Proofs.Flow.Values

namespace TypeFlow

def Fact.Holds (r : Registry) (v : Option Ty) : Fact → Prop
  | .is t => r.Inhabits v t
  | .isNot t => ¬ r.Inhabits v t
  | .notNone => v ≠ none
  | .isNone => v = none

def Narrowing.Regular (n : Narrowing) : Prop := n.ty.Plain ∨ n.ty = n.declared

def Layer.Regular (ps : List Path) (l : Layer) : Prop :=
  ∀ e ∈ l.entries, e.2.Regular ∧ (e.1 ∈ ps → e.2.declared.Testable)

structure FlowFact.Regular (f : FlowFact) : Prop where
  declared : f.declared.Testable
  target : ∀ t, f.fact = .is t → t.Plain ∨ t = f.declared

def Registry.Closes (r : Registry) (v : Option Ty) : Prop :=
  ∀ t ms, r.exhaustiveMembers t = some ms → r.Inhabits v t → ∃ m ∈ ms, r.Inhabits v m

def Layer.Covered (r : Registry) (ρ : Valuation) (l : Layer) : Prop :=
  ∀ e ∈ l.entries, r.Inhabits (ρ.tag e.1) e.2.declared

namespace Narrowing

variable {r : Registry} {v : Option Ty} {n : Narrowing}

theorem plain_exhaustiveMembers {t m : Ty} {ms : List Ty} (ht : t.Plain)
    (h : r.exhaustiveMembers t = some ms) (hm : m ∈ ms) : m.Plain := by
  unfold Registry.exhaustiveMembers at h
  split at h
  · cases h
    exact ht.member m hm
  · split at h
    · obtain ⟨d, -, hd⟩ := exists_of_mem_mapM h hm
      unfold Registry.plainDecl at hd
      split at hd
      · split at hd <;> cases hd
        exact Ty.plain_named _ _
      · cases hd
    · cases h
  · cases h

theorem plain_base {ms : List Ty} (hd : n.declared.Testable)
    (h : r.exhaustiveMembers n.base = some ms) : n.base.Plain := by
  unfold base at h ⊢
  split
  · next u hu =>
    rw [hu] at h
    dsimp only at h
    split
    · exact hd.optionInner hu
    · next hty =>
      rw [if_neg hty] at h
      cases hdecl : n.declared <;> rw [hdecl] at hu h <;> cases hu
      cases h
  · next hu => exact hd.plain hu

theorem regular_remaining (hd : n.declared.Testable) (hn : n.Regular) :
    (n.remaining r).Plain ∨ n.remaining r = n.declared := by
  unfold remaining
  split
  · exact hn
  · next ms hms =>
    have hleft : ∀ m ∈ ms.filter fun m => !n.excludes m, m.Plain :=
      fun m hm => plain_exhaustiveMembers (plain_base hd hms) hms (List.mem_filter.mp hm).1
    split
    · exact .inl (.single rfl rfl)
    · next t heq => exact .inl (hleft t (by simp [heq]))
    · split
      · exact .inl (Ty.plain_mkUnion hleft)
      · exact hn

theorem regular_refine {f : Fact} (hd : n.declared.Testable) (hn : n.Regular)
    (hf : ∀ t, f = .is t → t.Plain ∨ t = n.declared) : (n.refine r f).Regular := by
  cases f with
  | is t => exact hf t rfl
  | isNot t => exact regular_remaining (n := { n with excluded := _ }) hd hn
  | notNone =>
    unfold Regular refine
    cases ho : n.ty.optionInner with
    | none => simpa [ho, Regular] using hn
    | some u =>
      rcases hn with hn | hn
      · rw [hn.optionInner] at ho
        cases ho
      · rw [hn] at ho
        exact .inl (by simpa [hn, ho] using hd.optionInner ho)
  | isNone => exact hn

theorem declared_refine (f : Fact) : (n.refine r f).declared = n.declared := by
  cases f <;> rfl

theorem inhabits_base (hv : IsTag v) (hn : n.Regular) (hd : r.Inhabits v n.declared)
    (ht : r.Inhabits v n.ty) : r.Inhabits v n.base := by
  unfold base
  split
  · next u hu =>
    split
    · next hty =>
      have hdecl : n.declared = .option u := by
        cases h : n.declared <;> rw [h] at hu <;> cases hu
        rfl
      have hplain : n.ty.Plain := by
        rcases hn with hn | hn
        · exact hn
        · rw [hn, hu] at hty
          cases hty
      rw [hdecl] at hd
      rcases (Registry.inhabits_option hv).mp hd with rfl | hd
      · exact absurd ht (Registry.not_inhabits_none hplain)
      · exact hd
    · exact hd
  · exact hd

theorem inhabits_remaining (hv : IsTag v) (hc : r.Closes v) (hn : n.Regular) (hfit : n.Fits r v)
    (hd : r.Inhabits v n.declared) : r.Inhabits v (n.remaining r) := by
  unfold remaining
  split
  · exact hfit.ty
  · next ms hms =>
    obtain ⟨m, hm, hvm⟩ := hc _ ms hms (inhabits_base hv hn hd hfit.ty)
    have hleft : m ∈ ms.filter fun m => !n.excludes m := by
      refine List.mem_filter.mpr ⟨hm, ?_⟩
      cases hex : n.excludes m with
      | false => rfl
      | true => exact absurd hvm (hfit.excluded m (List.contains_iff_mem.mp hex))
    split
    · next heq =>
      rw [heq] at hleft
      cases hleft
    · next t heq =>
      rw [heq] at hleft
      exact List.mem_singleton.mp hleft ▸ hvm
    · split
      · exact (Registry.inhabits_mkUnion hv).mpr ⟨m, hleft, hvm⟩
      · exact hfit.ty

theorem fits_refine {f : Fact} (hv : IsTag v) (hc : r.Closes v) (hn : n.Regular) (hfit : n.Fits r v)
    (hd : r.Inhabits v n.declared) (hf : f.Holds r v) : (n.refine r f).Fits r v := by
  cases f with
  | is t => exact ⟨hf, hfit.excluded⟩
  | isNot t =>
    have hnext : Narrowing.Fits r v { n with excluded := Ty.insertSorted t n.excluded } := by
      refine ⟨hfit.ty, fun u hu => ?_⟩
      rcases Ty.mem_insertSorted.mp hu with rfl | hu
      · exact hf
      · exact hfit.excluded u hu
    exact ⟨inhabits_remaining hv hc hn hnext hd, hnext.excluded⟩
  | notNone =>
    refine ⟨?_, hfit.excluded⟩
    unfold refine
    cases ht : n.ty <;> simp only [Ty.optionInner, Option.getD_none, Option.getD_some]
    case option u =>
      have h := hfit.ty
      rw [ht] at h
      exact ((Registry.inhabits_option hv).mp h).resolve_left hf
    all_goals
      rw [← ht]
      exact hfit.ty
  | isNone => exact hfit

end Narrowing

namespace Layer

variable {r : Registry} {ρ : Valuation} {ps : List Path} {l : Layer} {f : FlowFact}

theorem declared_view (p : Path) (d : Ty) : (l.view p d).declared = d := by
  unfold view
  split
  · next n _ =>
    split
    · next h => exact eq_of_beq h
    · rfl
  · rfl

theorem view_cases (p : Path) (d : Ty) :
    (p, l.view p d) ∈ l.entries ∨ l.view p d = .unrefined d := by
  unfold view
  split
  · next n hn =>
    split
    · exact .inl (mem_of_lookup hn)
    · exact .inr rfl
  · exact .inr rfl

theorem mem_set {p : Path} {n : Narrowing} {e : Path × Narrowing} (h : e ∈ (l.set p n).entries) :
    e = (p, n) ∨ e ∈ l.entries := by
  unfold set at h
  split at h
  · exact .inr (List.mem_filter.mp h).1
  · rcases List.mem_cons.mp h with h | h
    · exact .inl h
    · exact .inr (List.mem_filter.mp h).1

theorem regular_view (h : l.Regular ps) (p : Path) (d : Ty) : (l.view p d).Regular := by
  rcases view_cases (l := l) p d with hmem | heq
  · exact (h _ hmem).1
  · rw [heq]
    exact .inr rfl

theorem Regular.apply (h : l.Regular ps) (hf : f.Regular) : (l.apply r f).Regular ps := by
  intro e he
  rcases mem_set he with rfl | he
  · have hn := regular_view h f.path f.declared
    have hd := declared_view (l := l) f.path f.declared
    generalize l.view f.path f.declared = n at hn hd ⊢
    have htarget : ∀ t, f.fact = .is t → t.Plain ∨ t = n.declared := hd ▸ hf.target
    have hdeclared : n.declared.Testable := hd ▸ hf.declared
    refine ⟨Narrowing.regular_refine hdeclared hn htarget, fun _ => ?_⟩
    rw [Narrowing.declared_refine]
    exact hdeclared
  · exact h e he

theorem Regular.applyAll {fs : List FlowFact} (h : l.Regular ps) (hf : ∀ f ∈ fs, f.Regular) :
    (l.applyAll r fs).Regular ps := by
  induction fs generalizing l with
  | nil => exact h
  | cons f fs ih =>
    obtain ⟨hhead, htail⟩ := List.forall_mem_cons.mp hf
    exact ih (h.apply hhead) htail

theorem inhabits_declared_view (ρ : Valuation) {p : Path} {d : Ty} (hd : r.Inhabits (ρ.tag p) d) :
    r.Inhabits (ρ.tag p) (l.view p d).declared := by
  rw [declared_view]
  exact hd

theorem fits_view (h : l.Consistent r ρ) {p : Path} {d : Ty} (hd : r.Inhabits (ρ.tag p) d) :
    (l.view p d).Fits r (ρ.tag p) := by
  rcases view_cases (l := l) p d with hmem | heq
  · exact h _ hmem
  · rw [heq]
    exact ⟨hd, nofun⟩

theorem Covered.apply (h : l.Covered r ρ) (hd : r.Inhabits (ρ.tag f.path) f.declared) :
    (l.apply r f).Covered r ρ := by
  intro e he
  rcases mem_set he with rfl | he
  · show r.Inhabits (ρ.tag f.path) (Narrowing.refine r (l.view f.path f.declared) f.fact).declared
    rw [Narrowing.declared_refine, declared_view]
    exact hd
  · exact h e he

theorem Consistent.apply (hc : r.Closes (ρ.tag f.path)) (hl : l.Regular ps) (h : l.Consistent r ρ)
    (hd : r.Inhabits (ρ.tag f.path) f.declared) (hf : f.fact.Holds r (ρ.tag f.path)) :
    (l.apply r f).Consistent r ρ := by
  intro e he
  rcases mem_set he with rfl | he
  · have hview := inhabits_declared_view (l := l) ρ hd
    exact Narrowing.fits_refine (ρ.isTag _) hc (regular_view hl _ _) (fits_view h hd) hview hf
  · exact h e he

structure Proven (r : Registry) (ρ : Valuation) (f : FlowFact) : Prop where
  declared : r.Inhabits (ρ.tag f.path) f.declared
  holds : f.fact.Holds r (ρ.tag f.path)

theorem consistent_applyAll {fs : List FlowFact} (hc : ∀ p, r.Closes (ρ.tag p)) (hl : l.Regular ps)
    (hcons : l.Consistent r ρ) (hcov : l.Covered r ρ) (hr : ∀ f ∈ fs, f.Regular)
    (hf : ∀ f ∈ fs, Proven r ρ f) :
    (l.applyAll r fs).Consistent r ρ ∧ (l.applyAll r fs).Covered r ρ := by
  induction fs generalizing l with
  | nil => exact ⟨hcons, hcov⟩
  | cons f fs ih =>
    obtain ⟨hr₁, hr₂⟩ := List.forall_mem_cons.mp hr
    obtain ⟨hf₁, hf₂⟩ := List.forall_mem_cons.mp hf
    exact ih (hl.apply hr₁) (hcons.apply (hc _) hl hf₁.declared hf₁.holds)
      (hcov.apply hf₁.declared) hr₂ hf₂

end Layer

end TypeFlow
