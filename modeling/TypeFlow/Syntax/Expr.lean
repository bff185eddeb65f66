import TypeFlow.Span
import TypeFlow.Syntax.Written

namespace TypeFlow

inductive BinaryOp where
  | add
  | sub
  | mul
  | div
  | rem
  | eq
  | notEq
  | lt
  | ltEq
  | gt
  | gtEq
  | and
  | or
  deriving DecidableEq, Repr

namespace BinaryOp

def all : List BinaryOp := [add, sub, mul, div, rem, eq, notEq, lt, ltEq, gt, gtEq, and, or]

def text : BinaryOp → String
  | add => "+"
  | sub => "-"
  | mul => "*"
  | div => "/"
  | rem => "%"
  | eq => "=="
  | notEq => "!="
  | lt => "<"
  | ltEq => "<="
  | gt => ">"
  | gtEq => ">="
  | and => "&&"
  | or => "||"

def ofText? (text : String) : Option BinaryOp := all.find? (·.text == text)

def isComparison : BinaryOp → Bool
  | eq | notEq | lt | ltEq | gt | gtEq => true
  | _ => false

def isLogical : BinaryOp → Bool
  | and | or => true
  | _ => false

end BinaryOp

structure Site where
  id : Nat := 0
  span : Span := {}
  deriving DecidableEq, Repr, Inhabited

mutual

inductive Expr where
  | missing
  | int (site : Site) (value : Int64)
  | float (site : Site)
  | bool (site : Site) (value : Bool)
  | str (site : Site) (value : String)
  | rune (site : Site) (value : Char)
  | noneLit (site : Site)
  | nilLit (site : Site)
  | ident (site : Site) (name : String)
  | variant (site : Site) (enum name : String)
  | field (site : Site) (receiver : Expr) (name : String)
  | index (site : Site) (receiver index : Expr)
  | neg (site : Site) (operand : Expr)
  | not (site : Site) (operand : Expr)
  | binary (site : Site) (op : BinaryOp) (left right : Expr)
  | call (site : Site) (callee : String) (generics : List GenericArg) (args : List Expr)
  | method (site : Site) (receiver : Expr) (name : String) (args : List Expr)
  | mutArg (site : Site) (operand : Expr)
  | borrow (site : Site) (mutable : Bool) (operand : Expr)
  | construct (site : Site) (name : String) (generics : List GenericArg) (fields : List FieldInit)
  | array (site : Site) (elems : List Expr)
  | tuple (site : Site) (elems : List Expr)
  | mapLit (site : Site) (entries : List MapEntry)
  | isTest (site : Site) (operand : Expr) (ty : Written) (negated : Bool)
  | noneCheck (site : Site) (operand : Expr) (negated : Bool)
  | cond (site : Site) (test thenBranch elseBranch : Expr)
  | guardBind (site : Site) (binding : String) (value thenBranch elseBranch : Expr)
  | matchOn (site : Site) (scrutinee : Expr) (arms : List Arm) (elseBranch : Expr)
  | block (site : Site) (stmts : List Stmt) (result : Expr)
  | ret (site : Site) (value : Expr)
  | breakLoop (site : Site)
  | continueLoop (site : Site)
  | loop (site : Site) (test body : Expr)

inductive GenericArg where
  | type (ty : Written)
  | value (expr : Expr)

inductive FieldInit where
  | mk (name : String) (value : Expr) (span : Span)

inductive MapEntry where
  | mk (key value : Expr) (span : Span)

inductive Arm where
  | onType (ty : Written) (body : Expr) (span : Span)
  | onValue (pattern body : Expr) (span : Span)

inductive Stmt where
  | bind (span : Span) (name : String) (mutable : Bool) (ty : Option Written) (init : Expr)
  | assign (span : Span) (target value : Expr)
  | expr (span : Span) (value : Expr)

end

instance : Inhabited Expr := ⟨.missing⟩

def FieldInit.value : FieldInit → Expr
  | .mk _ e _ => e

def MapEntry.key : MapEntry → Expr
  | .mk k _ _ => k

def MapEntry.value : MapEntry → Expr
  | .mk _ v _ => v

def Arm.body : Arm → Expr
  | .onType _ b _ | .onValue _ b _ => b

def Stmt.span : Stmt → Span
  | .bind s .. | .assign s .. | .expr s _ => s

namespace Expr

def site? : Expr → Option Site
  | missing => none
  | int s _ | float s | bool s _ | str s _ | rune s _ | noneLit s | nilLit s | ident s _
  | variant s _ _ | field s _ _ | index s _ _ | neg s _ | not s _ | binary s _ _ _ | call s _ _ _
  | method s _ _ _ | mutArg s _ | borrow s _ _ | construct s _ _ _ | array s _ | tuple s _
  | mapLit s _ | isTest s _ _ _ | noneCheck s _ _ | cond s _ _ _ | guardBind s _ _ _ _
  | matchOn s _ _ _ | block s _ _ | ret s _ | breakLoop s | continueLoop s | loop s _ _ => some s

def isPresent (e : Expr) : Bool := e.site?.isSome

def span (e : Expr) : Span := (e.site?.map (·.span)).getD {}

end Expr

end TypeFlow
