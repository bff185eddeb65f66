namespace TypeFlow

inductive ErrorCode where
  | typeMismatch
  | unknownType
  | unknownIdentifier
  | argCountMismatch
  | unresolvedGeneric
  | conflictingBinding
  | constraintViolation
  | genericArgMismatch
  | constGenericDomain
  | constGenericNotConstant
  | ambiguousLub
  | incompatibleBranches
  | invalidNarrowingTarget
  | impossibleTypeTest
  | unknownMember
  | notCallable
  | assignToImmutable
  | duplicateDefinition
  | untypedLiteral
  | invalidOperands
  | controlOutsideLoop
  | internalError
  deriving DecidableEq, Repr

namespace ErrorCode

def all : List ErrorCode :=
  [typeMismatch, unknownType, unknownIdentifier, argCountMismatch, unresolvedGeneric,
    conflictingBinding, constraintViolation, genericArgMismatch, constGenericDomain,
    constGenericNotConstant, ambiguousLub, incompatibleBranches, invalidNarrowingTarget,
    impossibleTypeTest, unknownMember, notCallable, assignToImmutable, duplicateDefinition,
    untypedLiteral, invalidOperands, controlOutsideLoop, internalError]

def number : ErrorCode → String
  | typeMismatch => "E2001"
  | unknownType => "E2002"
  | unknownIdentifier => "E2003"
  | argCountMismatch => "E2004"
  | unresolvedGeneric => "E2005"
  | conflictingBinding => "E2006"
  | constraintViolation => "E2007"
  | genericArgMismatch => "E2008"
  | constGenericDomain => "E2009"
  | constGenericNotConstant => "E2010"
  | ambiguousLub => "E2011"
  | incompatibleBranches => "E2012"
  | invalidNarrowingTarget => "E2013"
  | impossibleTypeTest => "E2014"
  | unknownMember => "E2015"
  | notCallable => "E2016"
  | assignToImmutable => "E2017"
  | duplicateDefinition => "E2018"
  | untypedLiteral => "E2019"
  | invalidOperands => "E2020"
  | controlOutsideLoop => "E2021"
  | internalError => "E9001"

def slug : ErrorCode → String
  | typeMismatch => "type-mismatch"
  | unknownType => "unknown-type"
  | unknownIdentifier => "unknown-identifier"
  | argCountMismatch => "arg-count-mismatch"
  | unresolvedGeneric => "unresolved-generic"
  | conflictingBinding => "conflicting-binding"
  | constraintViolation => "constraint-violation"
  | genericArgMismatch => "generic-arg-mismatch"
  | constGenericDomain => "const-generic-domain"
  | constGenericNotConstant => "const-generic-not-constant"
  | ambiguousLub => "ambiguous-lub"
  | incompatibleBranches => "incompatible-branches"
  | invalidNarrowingTarget => "invalid-narrowing-target"
  | impossibleTypeTest => "impossible-type-test"
  | unknownMember => "unknown-member"
  | notCallable => "not-callable"
  | assignToImmutable => "assign-to-immutable"
  | duplicateDefinition => "duplicate-definition"
  | untypedLiteral => "untyped-literal"
  | invalidOperands => "invalid-operands"
  | controlOutsideLoop => "control-outside-loop"
  | internalError => "internal-error"

def isInternal (c : ErrorCode) : Bool := c == internalError

def isTypeError (c : ErrorCode) : Bool := !c.isInternal

def position (c : ErrorCode) : Nat := all.idxOf c

def ofText? (text : String) : Option ErrorCode :=
  let upper := text.map Char.toUpper
  all.find? fun c => c.number == upper || c.slug == text

theorem mem_all (c : ErrorCode) : c ∈ all := by cases c <;> decide

end ErrorCode

end TypeFlow
