import TypeFlow.Shared
import TypeFlow.Ty.Basic

namespace TypeFlow.Ty

section Lists

variable {α : Type}

def decCons {a : α} {as : List α} (first : (b : α) → Decidable (a = b))
    (rest : (bs : List α) → Decidable (as = bs)) : (us : List α) → Decidable (a :: as = us)
  | [] => isFalse nofun
  | b :: bs =>
    match first b with
    | isFalse h => isFalse fun e => h (List.cons.inj e).1
    | isTrue h =>
      match rest bs with
      | isFalse k => isFalse fun e => k (List.cons.inj e).2
      | isTrue k => isTrue (by rw [h, k])

def decNil : (us : List α) → Decidable ([] = us)
  | [] => isTrue rfl
  | _ :: _ => isFalse nofun

end Lists

mutual

def decEq (s t : Ty) : Decidable (s = t) :=
  withPtrEqDecEq s t fun _ =>
    if h : s.head = t.head then
      have same : Decidable (s.parts = t.parts) :=
        match s with
        | pointer _ a | reference _ a | fixedArray _ a | dynArray a | option a | channel a =>
          decCons (decEq a) decNil t.parts
        | map a b | result a b => decCons (decEq a) (decCons (decEq b) decNil) t.parts
        | tuple ts | union ts | named _ ts | interface _ ts => decEqAll ts t.parts
        | function ps _ r => decCons (decEq r) (decEqAll ps) t.parts
        | prim _ | unit | never | error | untypedNone | untypedNil | param .. | var _ | const _ =>
          decNil t.parts
      match same with
      | isTrue k => isTrue (eq_of_head_of_parts h k)
      | isFalse k => isFalse fun e => k (congrArg parts e)
    else isFalse fun e => h (congrArg head e)

def decEqAll : (ts us : List Ty) → Decidable (ts = us)
  | [] => decNil
  | t :: ts => decCons (decEq t) (decEqAll ts)

end

abbrev EqualPairs := Std.HashMap (Nat × Nat) { p : Ty × Ty // p.1 = p.2 }

def EqualPairs.find (notes : EqualPairs) (addresses : Nat × Nat) (s t : Ty) :
    Option (PLift (s = t)) :=
  match notes[addresses]? with
  | none => none
  | some ⟨(a, b), h⟩ =>
    match decEq a s, decEq b t with
    | isTrue x, isTrue y => some ⟨by rw [← x, ← y]; exact h⟩
    | _, _ => none

def noteEq {s t : Ty} (compute : Recalling EqualPairs (Decidable (s = t))) :
    Recalling EqualPairs (Decidable (s = t)) := fun notes =>
  withAddress s fun i => withAddress t fun j =>
    if i = j then Squash.mk (decEq s t, notes)
    else
      match notes.find (i, j) s t with
      | some h => Squash.mk (isTrue h.down, notes)
      | none => (compute notes).lift fun r =>
        match r.1 with
        | isTrue h => Squash.mk (isTrue h, r.2.insert (i, j) ⟨(s, t), h⟩)
        | isFalse h => Squash.mk (isFalse h, r.2)

def findEqCons {a : Ty} {as : List Ty}
    (first : (b : Ty) → Recalling EqualPairs (Decidable (a = b)))
    (rest : (bs : List Ty) → Recalling EqualPairs (Decidable (as = bs))) :
    (us : List Ty) → Recalling EqualPairs (Decidable (a :: as = us))
  | [] => return isFalse nofun
  | b :: bs => do
    match ← first b with
    | isFalse h => return isFalse fun e => h (List.cons.inj e).1
    | isTrue h =>
      match ← rest bs with
      | isFalse k => return isFalse fun e => k (List.cons.inj e).2
      | isTrue k => return isTrue (by rw [h, k])

def findEqNil (us : List Ty) : Recalling EqualPairs (Decidable ([] = us)) := return decNil us

mutual

def findEq (s t : Ty) : Recalling EqualPairs (Decidable (s = t)) :=
  if h : s.head = t.head then
    have same : Recalling EqualPairs (Decidable (s.parts = t.parts)) :=
      match s with
      | pointer _ a | reference _ a | fixedArray _ a | dynArray a | option a | channel a =>
        findEqCons (findEq a) findEqNil t.parts
      | map a b | result a b => findEqCons (findEq a) (findEqCons (findEq b) findEqNil) t.parts
      | tuple ts | union ts | named _ ts | interface _ ts => findEqAll ts t.parts
      | function ps _ r => findEqCons (findEq r) (findEqAll ps) t.parts
      | prim _ | unit | never | error | untypedNone | untypedNil | param .. | var _ | const _ =>
        findEqNil t.parts
    noteEq do
      match ← same with
      | isTrue k => return isTrue (eq_of_head_of_parts h k)
      | isFalse k => return isFalse fun e => k (congrArg parts e)
  else return isFalse fun e => h (congrArg head e)

def findEqAll : (ts us : List Ty) → Recalling EqualPairs (Decidable (ts = us))
  | [] => findEqNil
  | t :: ts => findEqCons (findEq t) (findEqAll ts)

end

def sharedDecEq (s t : Ty) : Decidable (s = t) :=
  withAddress s fun address => if address = 0 then decEq s t else (findEq s t).run {}

instance : DecidableEq Ty := sharedDecEq

end TypeFlow.Ty
