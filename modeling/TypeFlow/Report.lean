import TypeFlow.Error

namespace TypeFlow

inductive Part where
  | ty (ty : Ty)
  | types (types : List Ty)
  | text (text : String)
  | count (n : Nat)
  | flag (value : Bool)
  | constant (value : ConstValue)
  deriving DecidableEq, Repr

structure Report where
  kind : String
  parts : List (String × Part)
  deriving DecidableEq, Repr

def Cause.report : Cause → Report
  | mismatch e f => ⟨"Mismatch", [("expected", .ty e), ("found", .ty f)]⟩
  | unknownType n => ⟨"UnknownType", [("name", .text n)]⟩
  | unknownIdent n => ⟨"UnknownIdent", [("name", .text n)]⟩
  | argCountMismatch e f v =>
    ⟨"ArgCountMismatch", [("expected", .count e), ("found", .count f), ("variadic", .flag v)]⟩
  | unresolvedGeneric p => ⟨"UnresolvedGeneric", [("param", .text p)]⟩
  | conflictingBinding p s t =>
    ⟨"ConflictingBinding", [("param", .text p), ("first", .ty s), ("second", .ty t)]⟩
  | constraintViolation p t c =>
    ⟨"ConstraintViolation", [("param", .text p), ("ty", .ty t), ("constraint", .ty c)]⟩
  | genericArgCount a b n =>
    ⟨"GenericArgCount", [("min", .count a), ("max", .count b), ("found", .count n)]⟩
  | genericArgKind p c => ⟨"GenericArgKind", [("param", .text p), ("expected_const", .flag c)]⟩
  | constDomain p v t => ⟨"ConstDomain", [("param", .text p), ("value", .constant v), ("ty", .ty t)]⟩
  | constNotConstant p => ⟨"ConstNotConstant", [("param", .text p)]⟩
  | ambiguousJoin ts => ⟨"AmbiguousLub", [("candidates", .types ts)]⟩
  | incompatibleBranches s t => ⟨"IncompatibleBranches", [("first", .ty s), ("second", .ty t)]⟩
  | invalidNarrowingTarget s t =>
    ⟨"InvalidNarrowingTarget", [("subject", .ty s), ("target", .ty t)]⟩
  | impossibleTypeTest s t => ⟨"ImpossibleTypeTest", [("subject", .ty s), ("target", .ty t)]⟩
  | unknownMember t m => ⟨"UnknownMember", [("ty", .ty t), ("member", .text m)]⟩
  | notCallable n => ⟨"NotCallable", [("name", .text n)]⟩
  | notAStruct n => ⟨"NotAStruct", [("name", .text n)]⟩
  | assignToImmutable n => ⟨"AssignToImmutable", [("name", .text n)]⟩
  | duplicateDefinition n => ⟨"DuplicateDefinition", [("name", .text n)]⟩
  | untypedLiteral => ⟨"UntypedLiteral", []⟩
  | notAnOption t => ⟨"NotAnOption", [("found", .ty t)]⟩
  | invalidOperands op s t =>
    ⟨"InvalidOperands", [("op", .text op.text), ("left", .ty s), ("right", .ty t)]⟩
  | invalidOperand op t => ⟨"InvalidOperand", [("op", .text op.text), ("operand", .ty t)]⟩
  | notIndexable t => ⟨"NotIndexable", [("ty", .ty t)]⟩
  | notAnInterface t => ⟨"NotAnInterface", [("ty", .ty t)]⟩
  | controlOutsideLoop c => ⟨"ControlOutsideLoop", [("keyword", .text c.keyword)]⟩
  | internal m => ⟨"Internal", [("message", .text m)]⟩

end TypeFlow
