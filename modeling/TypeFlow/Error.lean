import TypeFlow.Diagnostic.Record
import TypeFlow.Solve.Explicit
import TypeFlow.Solve.Infer
import TypeFlow.Syntax.Expr
import TypeFlow.Typing.Join
import TypeFlow.Typing.Resolve

namespace TypeFlow

inductive UnaryOp where
  | neg
  | not
  deriving DecidableEq, Repr

def UnaryOp.text : UnaryOp → String
  | .neg => "-"
  | .not => "!"

inductive LoopControl where
  | leave
  | next
  deriving DecidableEq, Repr

def LoopControl.keyword : LoopControl → String
  | .leave => "break"
  | .next => "continue"

inductive Cause where
  | mismatch (expected found : Ty)
  | unknownType (name : String)
  | unknownIdent (name : String)
  | argCountMismatch (expected found : Nat) (variadic : Bool)
  | unresolvedGeneric (param : String)
  | conflictingBinding (param : String) (first second : Ty)
  | constraintViolation (param : String) (ty constraint : Ty)
  | genericArgCount (min max found : Nat)
  | genericArgKind (param : String) (expectedConst : Bool)
  | constDomain (param : String) (value : ConstValue) (ty : Ty)
  | constNotConstant (param : String)
  | ambiguousJoin (candidates : List Ty)
  | incompatibleBranches (first second : Ty)
  | invalidNarrowingTarget (subject target : Ty)
  | impossibleTypeTest (subject target : Ty)
  | unknownMember (ty : Ty) (member : String)
  | notCallable (name : String)
  | notAStruct (name : String)
  | assignToImmutable (name : String)
  | duplicateDefinition (name : String)
  | untypedLiteral
  | notAnOption (found : Ty)
  | invalidOperands (op : BinaryOp) (left right : Ty)
  | invalidOperand (op : UnaryOp) (operand : Ty)
  | notIndexable (ty : Ty)
  | notAnInterface (ty : Ty)
  | controlOutsideLoop (control : LoopControl)
  | internal (message : String)
  deriving DecidableEq, Repr

structure Wording where
  spell : Ty → String
  arrange : List String → List String

namespace Wording

-- Things are listed as they are stored. It keeps apart types that are spelled alike where things are
-- sorted, such as a list of unions and a union with a list.
def stored (r : Registry) : Wording := ⟨Ty.spell r.declName id, id⟩

def sorted (r : Registry) : Wording := ⟨r.spell, Ty.sortTexts⟩

end Wording

namespace Cause

def ofSolve : SolveError → Cause
  | .unresolved p => .unresolvedGeneric p
  | .conflicting p s t => .conflictingBinding p s t
  | .constraintViolation p t c => .constraintViolation p t c
  | .genericArgCount a b n => .genericArgCount a b n
  | .genericArgKind p c => .genericArgKind p c
  | .constDomain p v t => .constDomain p v t
  | .constNotConstant p => .constNotConstant p

def ofJoin : JoinError → Cause
  | .ambiguous ts => .ambiguousJoin ts
  | .incompatible s t => .incompatibleBranches s t

def ofResolve : ResolveError → Cause
  | .unknownType n => .unknownType n
  | .genericArgCount _ a b n => .genericArgCount a b n
  | .constArgExpected _ p => .genericArgKind p true

def code : Cause → ErrorCode
  | mismatch .. | notAnOption _ | notAnInterface _ => .typeMismatch
  | unknownType _ | notAStruct _ => .unknownType
  | unknownIdent _ => .unknownIdentifier
  | argCountMismatch .. => .argCountMismatch
  | unresolvedGeneric _ => .unresolvedGeneric
  | conflictingBinding .. => .conflictingBinding
  | constraintViolation .. => .constraintViolation
  | genericArgCount .. | genericArgKind .. => .genericArgMismatch
  | constDomain .. => .constGenericDomain
  | constNotConstant _ => .constGenericNotConstant
  | ambiguousJoin _ => .ambiguousLub
  | incompatibleBranches .. => .incompatibleBranches
  | invalidNarrowingTarget .. => .invalidNarrowingTarget
  | impossibleTypeTest .. => .impossibleTypeTest
  | unknownMember .. => .unknownMember
  | notCallable _ => .notCallable
  | assignToImmutable _ => .assignToImmutable
  | duplicateDefinition _ => .duplicateDefinition
  | untypedLiteral => .untypedLiteral
  | invalidOperands .. | invalidOperand .. | notIndexable _ => .invalidOperands
  | controlOutsideLoop _ => .controlOutsideLoop
  | internal _ => .internalError

def quoted (s : String) : String := "\x60" ++ s ++ "\x60"

def message (w : Wording) : Cause → String
  | mismatch e f => "expected " ++ quoted (w.spell e) ++ ", found " ++ quoted (w.spell f)
  | unknownType n => "unknown type " ++ quoted n
  | unknownIdent n => "unknown identifier " ++ quoted n
  | argCountMismatch e f v =>
    "expected " ++ (if v then "at least " else "") ++ toString e ++ " argument"
      ++ (if e == 1 then "" else "s") ++ ", found " ++ toString f
  | unresolvedGeneric p => "cannot infer type parameter " ++ quoted p
  | conflictingBinding p s t =>
    "conflicting types for parameter " ++ quoted p ++ ": " ++ quoted (w.spell s) ++ " vs "
      ++ quoted (w.spell t)
  | constraintViolation _ t c =>
    "type " ++ quoted (w.spell t) ++ " does not satisfy constraint " ++ quoted (w.spell c)
  | genericArgCount a b n =>
    "expected " ++ (if a == b then toString b else toString a ++ " to " ++ toString b)
      ++ " generic arguments, found " ++ toString n
  | genericArgKind p c =>
    "generic parameter " ++ quoted p ++ " expects " ++ (if c then "a constant" else "a type")
  | constDomain p v t =>
    quoted v.text ++ " is out of range for " ++ quoted (w.spell t) ++ " parameter " ++ quoted p
  | constNotConstant p =>
    "argument for const parameter " ++ quoted p ++ " is not a compile-time constant"
  | ambiguousJoin ts =>
    "branches have several common interfaces: "
      ++ ", ".intercalate ((w.arrange (ts.map w.spell)).map quoted)
  | incompatibleBranches s t =>
    "branches have incompatible types " ++ quoted (w.spell s) ++ " and " ++ quoted (w.spell t)
  | invalidNarrowingTarget s t =>
    "a value of type " ++ quoted (w.spell s) ++ " can never be " ++ quoted (w.spell t)
  | impossibleTypeTest s t =>
    "this value is never " ++ quoted (w.spell t) ++ " here (known: " ++ quoted (w.spell s) ++ ")"
  | unknownMember t m => "no member " ++ quoted m ++ " on type " ++ quoted (w.spell t)
  | notCallable n => quoted n ++ " is not a function"
  | notAStruct n => quoted n ++ " is not a struct"
  | assignToImmutable n => "cannot assign through immutable binding " ++ quoted n
  | duplicateDefinition n => quoted n ++ " is defined more than once"
  | untypedLiteral => "cannot infer the type of this literal"
  | notAnOption t => "only option values compare with " ++ quoted "none" ++ ", found "
      ++ quoted (w.spell t)
  | invalidOperands op s t =>
    "operator " ++ quoted op.text ++ " is not defined for " ++ quoted (w.spell s) ++ " and "
      ++ quoted (w.spell t)
  | invalidOperand op t =>
    "operator " ++ quoted op.text ++ " is not defined for " ++ quoted (w.spell t)
  | notIndexable t => "cannot index into a value of type " ++ quoted (w.spell t)
  | notAnInterface t => quoted (w.spell t) ++ " is not an interface"
  | controlOutsideLoop c => quoted c.keyword ++ " outside of a loop"
  | internal m => "internal error: " ++ m

def remark (w : Wording) : Cause → String
  | mismatch _ f => "this is " ++ quoted (w.spell f)
  | unknownType _ | unknownIdent _ => "not found in this scope"
  | argCountMismatch .. => "wrong number of arguments"
  | unresolvedGeneric _ => "type parameter not constrained by any argument"
  | conflictingBinding .. => "arguments disagree"
  | constraintViolation p _ _ => "required by parameter " ++ quoted p
  | genericArgCount .. => "wrong number of generic arguments"
  | genericArgKind .. => "wrong kind of generic argument"
  | constDomain .. => "value outside the parameter's type"
  | constNotConstant _ => "not known at compile time"
  | ambiguousJoin _ => "cannot pick one branch type"
  | incompatibleBranches .. => "no common type"
  | invalidNarrowingTarget .. => "invalid type test"
  | impossibleTypeTest .. => "already ruled out by an enclosing condition"
  | unknownMember .. => "unknown member"
  | notCallable _ => "not callable"
  | notAStruct _ => "cannot construct with a struct literal"
  | assignToImmutable _ => "binding is not " ++ quoted "mut"
  | duplicateDefinition _ => "redefined here"
  | untypedLiteral => "add a type annotation"
  | notAnOption _ => "not an option"
  | invalidOperands .. => "invalid operands"
  | invalidOperand .. => "invalid operand"
  | notIndexable _ => "not indexable"
  | notAnInterface _ => "only interfaces can be implemented"
  | controlOutsideLoop _ => "not inside a loop"
  | internal _ => "here"

def notes : Cause → List String
  | internal _ => ["this is a bug in the type checker"]
  | _ => []

def suggestions : Cause → List String
  | unresolvedGeneric _ => ["pass the generic arguments explicitly"]
  | ambiguousJoin _ => ["annotate the expected type to disambiguate"]
  | _ => []

end Cause

structure CheckError where
  span : Span
  cause : Cause
  deriving DecidableEq, Repr

namespace CheckError

def code (e : CheckError) : ErrorCode := e.cause.code

def diagnosticIn (w : Wording) (e : CheckError) : Diagnostic where
  code := e.code
  message := e.cause.message w
  labels := [{ span := e.span, message := e.cause.remark w }]
  notes := e.cause.notes
  suggestions := e.cause.suggestions

def diagnostic (r : Registry) (e : CheckError) : Diagnostic := e.diagnosticIn (.stored r)

end CheckError

end TypeFlow
