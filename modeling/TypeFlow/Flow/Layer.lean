import TypeFlow.Flow.Path
import TypeFlow.Typing.Assign

namespace TypeFlow

inductive Fact where
  | is (ty : Ty)
  | isNot (ty : Ty)
  | notNone
  | isNone
  deriving DecidableEq, Repr

structure FlowFact where
  path : Path
  declared : Ty
  fact : Fact
  deriving DecidableEq, Repr

structure Narrowing where
  declared : Ty
  ty : Ty
  excluded : List Ty := []
  deriving DecidableEq, Repr

namespace Narrowing

def unrefined (declared : Ty) : Narrowing := ⟨declared, declared, []⟩

def isTrivial (n : Narrowing) : Bool := n.ty == n.declared && n.excluded.isEmpty

def excludes (n : Narrowing) (t : Ty) : Bool := n.excluded.contains t

-- The type whose members negative facts rule out: an option that is proven present counts as its
-- payload.
def base (n : Narrowing) : Ty :=
  match n.declared.optionInner with
  | some inner => if n.ty.optionInner.isNone then inner else n.declared
  | none => n.declared

def remaining (r : Registry) (n : Narrowing) : Ty :=
  match r.exhaustiveMembers n.base with
  | none => n.ty
  | some members =>
    match members.filter fun m => !n.excludes m with
    | [] => .never
    | [only] => only
    | left => if n.base.isUnion then .mkUnion left else n.ty

def refine (r : Registry) (n : Narrowing) : Fact → Narrowing
  | .is t => { n with ty := t }
  | .isNot t =>
    let n := { n with excluded := Ty.insertSorted t n.excluded }
    { n with ty := n.remaining r }
  | .notNone => { n with ty := n.ty.optionInner.getD n.ty }
  | .isNone => n

-- What two branches agree on. The wider of the two types holds if one accepts the other.
def merge (r : Registry) (m n : Narrowing) : Option Narrowing :=
  if m.declared != n.declared then none
  else
    let excluded := m.excluded.filter n.excludes
    if m.ty == n.ty || r.assignable n.ty m.ty then some ⟨m.declared, m.ty, excluded⟩
    else if r.assignable m.ty n.ty then some ⟨m.declared, n.ty, excluded⟩
    else none

end Narrowing

structure Layer where
  entries : List (Path × Narrowing) := []
  deriving DecidableEq, Repr

namespace Layer

def get (l : Layer) (p : Path) : Option Narrowing := l.entries.lookup p

def narrowed (l : Layer) (p : Path) : Option Ty := (l.get p).map (·.ty)

def size (l : Layer) : Nat := l.entries.length

def isEmpty (l : Layer) : Bool := l.entries.isEmpty

def erase (l : Layer) (p : Path) : Layer := ⟨l.entries.filter fun e => e.1 != p⟩

def set (l : Layer) (p : Path) (n : Narrowing) : Layer :=
  if n.isTrivial then l.erase p else ⟨(p, n) :: (l.erase p).entries⟩

-- The view of a path whose declared type is known. An entry with another declared type is about
-- something else.
def view (l : Layer) (p : Path) (declared : Ty) : Narrowing :=
  match l.get p with
  | some n => if n.declared == declared then n else .unrefined declared
  | none => .unrefined declared

def apply (r : Registry) (l : Layer) (f : FlowFact) : Layer :=
  l.set f.path ((l.view f.path f.declared).refine r f.fact)

def applyAll (r : Registry) (l : Layer) (fs : List FlowFact) : Layer := fs.foldl (apply r) l

def invalidate (l : Layer) (p : Path) : Layer := ⟨l.entries.filter fun e => !e.1.startsWith p⟩

def mergeEntry (r : Registry) (m : Layer) (e : Path × Narrowing) : Option (Path × Narrowing) :=
  match m.get e.1 with
  | none => none
  | some n =>
    match e.2.merge r n with
    | some k => if k.isTrivial then none else some (e.1, k)
    | none => none

def merge (r : Registry) (l m : Layer) : Layer := ⟨l.entries.filterMap (mergeEntry r m)⟩

end Layer

end TypeFlow
