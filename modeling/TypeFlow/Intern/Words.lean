import TypeFlow.Intern.Pool

namespace TypeFlow.Words

def shardOf (word : String) : Nat :=
  ((word.toUTF8.toList.take 8).foldl (fun h b => h * 31 + b.toUInt32) (0 : UInt32)).toNat
    % Handle.shardCount

def builtinTypes : List String :=
  ["i8", "i16", "i32", "i64", "isize", "u8", "u16", "u32", "u64", "usize", "f32", "f64", "bool",
    "string", "rune", "void", "int", "byte"]

def initial : Pool String := builtinTypes.foldl Pool.insert ⟨[""]⟩

def intern (p : Pool String) (word : String) : Handle × Pool String := p.intern shardOf word

def lookup (p : Pool String) (h : Handle) : String := (p.lookup shardOf h).getD "<unknown>"

def isEmpty (p : Pool String) : Bool := p.size ≤ 1

def text (p : Pool String) : String := "SharedInterner \x7b len: " ++ toString p.size ++ " \x7d"

end TypeFlow.Words
