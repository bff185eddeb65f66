namespace TypeFlow

structure Path where
  root : String
  fields : List String := []
  deriving DecidableEq, Repr

namespace Path

def field (p : Path) (name : String) : Path := ⟨p.root, p.fields ++ [name]⟩

def startsWith (p base : Path) : Bool := p.root == base.root && base.fields.isPrefixOf p.fields

@[simp] theorem startsWith_self (p : Path) : p.startsWith p = true := by
  simp [startsWith]

@[simp] theorem startsWith_field (p : Path) (name : String) : (p.field name).startsWith p = true := by
  simp [startsWith, field]

end Path

end TypeFlow
