import TypeFlow.Flow.Path
import TypeFlow.Decl.Registry
import TypeFlow.Syntax.Expr

namespace TypeFlow.Expr

def path? : Expr → Option Path
  | ident _ x => some ⟨x, []⟩
  | field _ e x => e.path?.map (·.field x)
  | _ => none

def writeRoot : Expr → Expr
  | index _ e _ => e.writeRoot
  | field _ e _ => e.writeRoot
  | e => e

def isNumber : Expr → Bool
  | int .. | float _ => true
  | _ => false

def isUntypedLiteral : Expr → Bool
  | int .. | float _ | noneLit _ | nilLit _ => true
  | neg _ e => e.isNumber
  | _ => false

mutual

def written (r : Registry) : Expr → List Path
  | missing | int .. | float _ | bool .. | str .. | rune .. | noneLit _ | nilLit _ | ident ..
  | variant .. | breakLoop _ | continueLoop _ => []
  | field _ e _ | neg _ e | not _ e | isTest _ e _ _ | noneCheck _ e _ | ret _ e => written r e
  | mutArg _ e => e.path?.toList ++ written r e
  | borrow _ m e => (if m then e.path?.toList else []) ++ written r e
  | index _ a b | binary _ _ a b | loop _ a b => written r a ++ written r b
  | call _ _ gs as => writtenGenerics r gs ++ writtenAll r as
  | method _ e f as =>
    (if r.anyMutReceiver f then e.path?.toList else []) ++ written r e ++ writtenAll r as
  | construct _ _ _ fs => writtenFields r fs
  | array _ es | tuple _ es => writtenAll r es
  | mapLit _ es => writtenEntries r es
  | cond _ a b c | guardBind _ _ a b c => written r a ++ written r b ++ written r c
  | matchOn _ e as els => written r e ++ writtenArms r as ++ written r els
  | block _ ss e => writtenStmts r ss ++ written r e

def writtenAll (r : Registry) : List Expr → List Path
  | [] => []
  | e :: es => written r e ++ writtenAll r es

def writtenGenerics (r : Registry) : List GenericArg → List Path
  | [] => []
  | .type _ :: gs => writtenGenerics r gs
  | .value e :: gs => written r e ++ writtenGenerics r gs

def writtenFields (r : Registry) : List FieldInit → List Path
  | [] => []
  | .mk _ e _ :: fs => written r e ++ writtenFields r fs

def writtenEntries (r : Registry) : List MapEntry → List Path
  | [] => []
  | .mk k v _ :: es => written r k ++ written r v ++ writtenEntries r es

def writtenArms (r : Registry) : List Arm → List Path
  | [] => []
  | .onType _ b _ :: as => written r b ++ writtenArms r as
  | .onValue p b _ :: as => written r p ++ written r b ++ writtenArms r as

def writtenStmts (r : Registry) : List Stmt → List Path
  | [] => []
  | .bind _ _ _ _ e :: ss => written r e ++ writtenStmts r ss
  | .assign _ t e :: ss => t.path?.toList ++ written r t ++ written r e ++ writtenStmts r ss
  | .expr _ e :: ss => written r e ++ writtenStmts r ss

end

mutual

def breaks : Expr → Bool
  | breakLoop _ => true
  | missing | int .. | float _ | bool .. | str .. | rune .. | noneLit _ | nilLit _ | ident ..
  | variant .. | continueLoop _ | loop .. => false
  | field _ e _ | neg _ e | not _ e | isTest _ e _ _ | noneCheck _ e _ | ret _ e | mutArg _ e
  | borrow _ _ e => breaks e
  | index _ a b | binary _ _ a b => breaks a || breaks b
  | call _ _ gs as => breaksGenerics gs || breaksAll as
  | method _ e _ as => breaks e || breaksAll as
  | construct _ _ _ fs => breaksFields fs
  | array _ es | tuple _ es => breaksAll es
  | mapLit _ es => breaksEntries es
  | cond _ a b c | guardBind _ _ a b c => breaks a || breaks b || breaks c
  | matchOn _ e as els => breaks e || breaksArms as || breaks els
  | block _ ss e => breaksStmts ss || breaks e

def breaksAll : List Expr → Bool
  | [] => false
  | e :: es => breaks e || breaksAll es

def breaksGenerics : List GenericArg → Bool
  | [] => false
  | .type _ :: gs => breaksGenerics gs
  | .value e :: gs => breaks e || breaksGenerics gs

def breaksFields : List FieldInit → Bool
  | [] => false
  | .mk _ e _ :: fs => breaks e || breaksFields fs

def breaksEntries : List MapEntry → Bool
  | [] => false
  | .mk k v _ :: es => breaks k || breaks v || breaksEntries es

def breaksArms : List Arm → Bool
  | [] => false
  | .onType _ b _ :: as => breaks b || breaksArms as
  | .onValue p b _ :: as => breaks p || breaks b || breaksArms as

def breaksStmts : List Stmt → Bool
  | [] => false
  | .bind _ _ _ _ e :: ss | .expr _ e :: ss => breaks e || breaksStmts ss
  | .assign _ t e :: ss => breaks t || breaks e || breaksStmts ss

end

end TypeFlow.Expr
