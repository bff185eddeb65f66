import Std.Data.HashMap

namespace TypeFlow

-- Use the address of a value for an answer that cannot depend on it. In the logic the address of
-- every value is zero, which is the address of no value when the program runs.
def withAddress {α β : Type} [Subsingleton β] (a : α) (k : Nat → β) : β :=
  withPtrAddr a (fun u => k u.toNat) fun _ _ => Subsingleton.elim _ _

def Recalling (σ α : Type) : Type := σ → Squash (α × σ)

namespace Recalling

instance {σ : Type} : Monad (Recalling σ) where
  pure a := fun notes => Squash.mk (a, notes)
  bind x f := fun notes => (x notes).lift fun r => f r.1 r.2

def run {σ α : Type} [Subsingleton α] (x : Recalling σ α) (notes : σ) : α :=
  (x notes).lift fun r => r.1

end Recalling

abbrev Answer {α β : Type} (f : α → β) (a : α) : Type := { b : β // b = f a }

instance {α β : Type} (f : α → β) (a : α) : Subsingleton (Answer f a) where
  allEq x y := Subtype.ext (x.2.trans y.2.symm)

abbrev Answers {α β : Type} (f : α → β) : Type := Std.HashMap Nat ((a : α) × Answer f a)

namespace Answers

variable {α β : Type} [DecidableEq α] {f : α → β}

def find (notes : Answers f) (address : Nat) (a : α) : Option (Answer f a) :=
  match notes[address]? with
  | none => none
  | some ⟨b, answer⟩ =>
    match withPtrEqDecEq b a fun _ => inferInstance with
    | isTrue h => some (h ▸ answer)
    | isFalse _ => none

def note (a : α) (compute : Recalling (Answers f) (Answer f a)) :
    Recalling (Answers f) (Answer f a) := fun notes =>
  withAddress a fun address =>
    match find notes address a with
    | some answer => Squash.mk (answer, notes)
    | none => (compute notes).lift fun r => Squash.mk (r.1, r.2.insert address ⟨a, r.1⟩)

end Answers

end TypeFlow
