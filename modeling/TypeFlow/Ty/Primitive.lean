namespace TypeFlow

inductive NumericCategory where
  | signed
  | unsigned
  | float
  deriving DecidableEq, Repr

def NumericCategory.name : NumericCategory → String
  | signed => "signed"
  | unsigned => "unsigned"
  | float => "float"

inductive Primitive where
  | i8
  | i16
  | i32
  | i64
  | isize
  | u8
  | u16
  | u32
  | u64
  | usize
  | f32
  | f64
  | bool
  | string
  | rune
  deriving DecidableEq, Repr, Inhabited

namespace Primitive

def all : List Primitive :=
  [i8, i16, i32, i64, isize, u8, u16, u32, u64, usize, f32, f64, bool, string, rune]

def index : Primitive → Nat
  | i8 => 0
  | i16 => 1
  | i32 => 2
  | i64 => 3
  | isize => 4
  | u8 => 5
  | u16 => 6
  | u32 => 7
  | u64 => 8
  | usize => 9
  | f32 => 10
  | f64 => 11
  | bool => 12
  | string => 13
  | rune => 14

theorem index_injective {p q : Primitive} (h : p.index = q.index) : p = q := by
  revert h; cases p <;> cases q <;> decide

theorem getElem?_all_index (p : Primitive) : all[p.index]? = some p := by cases p <;> rfl

def name : Primitive → String
  | i8 => "i8"
  | i16 => "i16"
  | i32 => "i32"
  | i64 => "i64"
  | isize => "isize"
  | u8 => "u8"
  | u16 => "u16"
  | u32 => "u32"
  | u64 => "u64"
  | usize => "usize"
  | f32 => "f32"
  | f64 => "f64"
  | bool => "bool"
  | string => "string"
  | rune => "rune"

def ofName? (name : String) : Option Primitive :=
  if name == "int" then some i32
  else if name == "byte" then some u8
  else all.find? (·.name == name)

def category : Primitive → Option NumericCategory
  | i8 | i16 | i32 | i64 | isize => some .signed
  | u8 | u16 | u32 | u64 | usize => some .unsigned
  | f32 | f64 => some .float
  | bool | string | rune => none

def bits : Primitive → Nat
  | i8 | u8 | bool => 8
  | i16 | u16 => 16
  | i32 | u32 | f32 | rune => 32
  | i64 | isize | u64 | usize | f64 | string => 64

def isInteger (p : Primitive) : Bool :=
  p.category == some .signed || p.category == some .unsigned

def isFloat (p : Primitive) : Bool := p.category == some .float

def isNumeric (p : Primitive) : Bool := p.category.isSome

def intRange (p : Primitive) : Option (Int × Int) :=
  match p.category with
  | some .signed => some (-Int.pow 2 (p.bits - 1), Int.pow 2 (p.bits - 1) - 1)
  | some .unsigned => some (0, Int.pow 2 p.bits - 1)
  | _ => none

def holds (p : Primitive) (value : Int) : Bool :=
  match p.intRange with
  | some (low, high) => low ≤ value && value ≤ high
  | none => false

def widensTo (p q : Primitive) : Bool :=
  p.category.isSome && p.category == q.category && p.bits ≤ q.bits

theorem widensTo_trans {p q r : Primitive} (hpq : p.widensTo q = true) (hqr : q.widensTo r = true) :
    p.widensTo r = true := by
  simp only [widensTo, Bool.and_eq_true, beq_iff_eq, decide_eq_true_eq] at *
  exact ⟨⟨hpq.1.1, hpq.1.2.trans hqr.1.2⟩, Nat.le_trans hpq.2 hqr.2⟩

end Primitive

end TypeFlow
