namespace TypeFlow

inductive Written where
  | named (name : String) (args : List Written)
  | pointer (mutable : Bool) (inner : Written)
  | reference (mutable : Bool) (inner : Written)
  | fixedArray (len : Nat) (elem : Written)
  | dynArray (elem : Written)
  | map (key value : Written)
  | tuple (elems : List Written)
  | function (params : List Written) (variadic : Bool) (ret : Written)
  | option (inner : Written)
  | result (ok err : Written)
  | channel (inner : Written)
  | union (members : List Written)
  | never
  deriving Repr, Inhabited

def Written.bareName : Written → Option String
  | .named name [] => some name
  | _ => none

end TypeFlow
