namespace TypeFlow

inductive ConstValue where
  | int (value : Int)
  | bool (value : Bool)
  | rune (value : Char)
  deriving DecidableEq, Repr, Inhabited

def ConstValue.text : ConstValue → String
  | .int n => toString n
  | .bool b => if b then "true" else "false"
  | .rune c => "\x60" ++ c.toString ++ "\x60"

end TypeFlow
