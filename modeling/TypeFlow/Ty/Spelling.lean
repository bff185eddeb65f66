import TypeFlow.Ty.Basic

namespace TypeFlow.Ty

def insertText (s : String) : List String → List String
  | [] => [s]
  | t :: ts => if s ≤ t then s :: t :: ts else t :: insertText s ts

def sortTexts (ts : List String) : List String := ts.foldr insertText []

def commaList (ts : List String) : String := ", ".intercalate ts

def markLast : List String → List String
  | [] => []
  | [t] => ["..." ++ t]
  | t :: ts => t :: markLast ts

def paramList (variadic : Bool) (ts : List String) : String :=
  commaList (if variadic then markLast ts else ts)

def applied (name : String) (args : List String) : String :=
  if args.isEmpty then name else name ++ "[" ++ commaList args ++ "]"

mutual

def spell (declName : DeclId → String) (arrange : List String → List String) : Ty → String
  | prim p => p.name
  | unit => "void"
  | never => "never"
  | error => "<error>"
  | untypedNone => "none"
  | untypedNil => "nil"
  | pointer m t => (if m then "*mut " else "*") ++ spell declName arrange t
  | reference m t => (if m then "&mut " else "&") ++ spell declName arrange t
  | fixedArray n t => "[" ++ toString n ++ "]" ++ spell declName arrange t
  | dynArray t => "[]" ++ spell declName arrange t
  | map k v => "map[" ++ spell declName arrange k ++ "]" ++ spell declName arrange v
  | tuple ts => "(" ++ commaList (spellAll declName arrange ts) ++ ")"
  | function ps v unit => "fn (" ++ paramList v (spellAll declName arrange ps) ++ ")"
  | function ps v r => "fn (" ++ paramList v (spellAll declName arrange ps) ++ ") " ++ spell declName arrange r
  | option t => "?" ++ spell declName arrange t
  | result a b => "Result[" ++ spell declName arrange a ++ ", " ++ spell declName arrange b ++ "]"
  | channel t => "chan " ++ spell declName arrange t
  | named d ts => applied (declName d) (spellAll declName arrange ts)
  | interface d ts => applied (declName d) (spellAll declName arrange ts)
  | union ts => " | ".intercalate (arrange (spellAll declName arrange ts))
  | param s _ => s
  | var i => "$T" ++ toString i
  | const c => c.text

def spellAll (declName : DeclId → String) (arrange : List String → List String) :
    List Ty → List String
  | [] => []
  | t :: ts => spell declName arrange t :: spellAll declName arrange ts

end

end TypeFlow.Ty
