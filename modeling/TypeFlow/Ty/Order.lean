import TypeFlow.Ty.Equality

namespace TypeFlow

section Dictionary

variable {α : Type} [DecidableEq α] {le : α → α → Bool}

def leCons (a : α) (first : α → Bool) (rest : List α → Bool) : List α → Bool
  | [] => false
  | b :: bs => if a = b then rest bs else first b

def dictLe (le : α → α → Bool) : List α → List α → Bool
  | [] => fun _ => true
  | a :: as => leCons a (le a) (dictLe le as)

theorem dictLe_total {as bs : List α} (total : ∀ a ∈ as, ∀ b, (le a b || le b a) = true) :
    (dictLe le as bs || dictLe le bs as) = true := by
  induction as generalizing bs with
  | nil => simp [dictLe]
  | cons a as ih =>
    cases bs with
    | nil => simp [dictLe]
    | cons b bs =>
      have hab := total a (by simp) b
      by_cases h : a = b
      · simpa [dictLe, leCons, h] using ih fun c hc => total c (by simp [hc])
      · simpa [dictLe, leCons, h, Ne.symm h] using hab

theorem dictLe_antisymm {as bs : List α}
    (antisymm : ∀ a ∈ as, ∀ b, le a b = true → le b a = true → a = b)
    (h : dictLe le as bs = true) (k : dictLe le bs as = true) : as = bs := by
  induction as generalizing bs with
  | nil => cases bs <;> simp_all [dictLe, leCons]
  | cons a as ih =>
    cases bs with
    | nil => simp [dictLe, leCons] at h
    | cons b bs =>
      by_cases e : a = b
      · simp only [dictLe, leCons, e, if_true] at h k
        rw [e, ih (fun c hc => antisymm c (by simp [hc])) h k]
      · simp only [dictLe, leCons, e, Ne.symm e, if_false] at h k
        exact absurd (antisymm a (by simp) b h k) e

theorem dictLe_trans {as bs cs : List α} (antisymm : ∀ a b, le a b = true → le b a = true → a = b)
    (trans : ∀ a ∈ as, ∀ b c, le a b = true → le b c = true → le a c = true)
    (h : dictLe le as bs = true) (k : dictLe le bs cs = true) : dictLe le as cs = true := by
  induction as generalizing bs cs with
  | nil => rfl
  | cons a as ih =>
    cases bs with
    | nil => simp [dictLe, leCons] at h
    | cons b bs =>
      cases cs with
      | nil => simp [dictLe, leCons] at k
      | cons c cs =>
        have htail := @ih bs cs fun d hd => trans d (by simp [hd])
        have hhead := trans a (by simp) b c
        have hab := antisymm a b
        simp only [dictLe, leCons] at h k ⊢
        grind

end Dictionary

def wordLe : List Nat → List Nat → Bool := dictLe Nat.ble

theorem wordLe_total (as bs : List Nat) : (wordLe as bs || wordLe bs as) = true :=
  dictLe_total fun a _ b => by simpa [Nat.ble_eq] using Nat.le_total a b

theorem wordLe_antisymm {as bs : List Nat} (h : wordLe as bs = true) (k : wordLe bs as = true) :
    as = bs :=
  dictLe_antisymm (fun _ _ _ h k => Nat.le_antisymm (Nat.le_of_ble_eq_true h) (Nat.le_of_ble_eq_true k))
    h k

theorem wordLe_trans {as bs cs : List Nat} (h : wordLe as bs = true) (k : wordLe bs cs = true) :
    wordLe as cs = true :=
  dictLe_trans
    (fun _ _ h k => Nat.le_antisymm (Nat.le_of_ble_eq_true h) (Nat.le_of_ble_eq_true k))
    (fun _ _ _ _ h k => Nat.ble_eq_true_of_le
      (Nat.le_trans (Nat.le_of_ble_eq_true h) (Nat.le_of_ble_eq_true k)))
    h k

namespace Ty

mutual

def le (s t : Ty) : Bool :=
  if s.head = t.head then
    match s with
    | pointer _ a | reference _ a | fixedArray _ a | dynArray a | option a | channel a =>
      leCons a (le a) (fun _ => true) t.parts
    | map a b | result a b => leCons a (le a) (leCons b (le b) fun _ => true) t.parts
    | tuple ts | union ts | named _ ts | interface _ ts => leAll ts t.parts
    | function ps _ r => leCons r (le r) (leAll ps) t.parts
    | prim _ | unit | never | error | untypedNone | untypedNil | param .. | var _ | const _ => true
  else wordLe s.head t.head

def leAll : List Ty → List Ty → Bool
  | [] => fun _ => true
  | t :: ts => leCons t (le t) (leAll ts)

end

theorem leAll_eq_dictLe (ts : List Ty) : leAll ts = dictLe le ts := by
  induction ts with
  | nil => rfl
  | cons t ts ih => rw [leAll, dictLe, ih]

theorem le_eq (s t : Ty) :
    le s t = if s.head = t.head then dictLe le s.parts t.parts else wordLe s.head t.head := by
  cases s <;> simp only [le, parts, dictLe, leAll_eq_dictLe]

theorem le_total (s t : Ty) : (le s t || le t s) = true := by
  induction s using parts_induction generalizing t with
  | h s ih =>
    rw [le_eq, le_eq]
    by_cases h : s.head = t.head
    · simpa [h] using dictLe_total fun a ha b => ih a ha b
    · simpa [h, Ne.symm h] using wordLe_total s.head t.head

theorem le_antisymm {s t : Ty} (h : le s t = true) (k : le t s = true) : s = t := by
  induction s using parts_induction generalizing t with
  | h s ih =>
    rw [le_eq] at h k
    by_cases e : s.head = t.head
    · simp only [e, if_true] at h k
      exact eq_of_head_of_parts e (dictLe_antisymm (fun a ha b => ih a ha) h k)
    · simp only [e, Ne.symm e, if_false] at h k
      exact absurd (wordLe_antisymm h k) e

theorem le_trans (s t u : Ty) (h : le s t = true) (k : le t u = true) : le s u = true := by
  induction s using parts_induction generalizing t u with
  | h s ih =>
    rw [le_eq] at h k ⊢
    have words := @wordLe_trans s.head t.head u.head
    have anti := @wordLe_antisymm s.head t.head
    by_cases e : s.head = t.head <;> by_cases f : t.head = u.head
    · simp only [e, f, if_true] at h k ⊢
      exact dictLe_trans (fun _ _ => le_antisymm) (fun a ha b c => ih a ha b c) h k
    all_goals grind

end Ty

end TypeFlow
