import TypeFlow.Infer.Branch
import TypeFlow.Infer.Call
import TypeFlow.Infer.Collection
import TypeFlow.Infer.Operator

namespace TypeFlow

mutual

def Expr.infer : Expr → Option Ty → Bool → Infer Typed
  | .missing, _, _ => return ⟨.error, {}⟩
  | .int s v, x, _ => Infer.visit s <| Infer.plain <| return .ofInt v.toInt x
  | .float s, x, _ => Infer.visit s <| Infer.plain <| return .ofFloat x
  | .bool s _, _, _ => Infer.visit s <| Infer.plain <| return .prim .bool
  | .str s _, _, _ => Infer.visit s <| Infer.plain <| return .prim .string
  | .rune s _, _, _ => Infer.visit s <| Infer.plain <| return .prim .rune
  | .noneLit s, x, _ => Infer.visit s <| Infer.plain <| return .ofNone x
  | .nilLit s, x, _ => Infer.visit s <| Infer.plain <| return .ofNil x
  | .ident s name, _, _ => Infer.visit s <| Infer.plain <| Infer.ident s.span name
  | .variant s enum name, _, _ => Infer.visit s <| Infer.plain <| Infer.enumVariant s.span enum name
  | .field s e name, _, _ => Infer.visit s <| Infer.plain <| Infer.field s.span ⟨e, e.infer⟩ name
  | .index s e i, _, _ =>
    Infer.visit s <| Infer.plain <| Infer.indexed s.span ⟨e, e.infer⟩ ⟨i, i.infer⟩
  | .neg s (.int t v), x, _ => Infer.visit s <| Infer.plain <| Infer.negatedInt t v x
  | .neg s e, x, _ => Infer.visit s <| Infer.plain <| Infer.negated ⟨e, e.infer⟩ x
  | .not s e, _, _ => Infer.visit s <| Infer.proving <| Infer.negation ⟨e, e.infer⟩
  | .binary s .and l r, _, _ =>
    Infer.visit s <| Infer.proving <| Infer.conjunction ⟨l, l.infer⟩ ⟨r, r.infer⟩
  | .binary s .or l r, _, _ =>
    Infer.visit s <| Infer.proving <| Infer.disjunction ⟨l, l.infer⟩ ⟨r, r.infer⟩
  | .binary s op l r, x, _ =>
    Infer.visit s <| Infer.plain <| Infer.binary s.span op ⟨l, l.infer⟩ ⟨r, r.infer⟩ x
  | .call s f gs as, _, _ =>
    Infer.visit s <| Infer.plain <|
      Infer.call s f (GenericArg.asChildren gs) (Expr.asChildren as)
  | .method s e f as, _, _ =>
    Infer.visit s <| Infer.plain <| Infer.methodCall s.span ⟨e, e.infer⟩ f (Expr.asChildren as)
  | .mutArg s e, x, _ => Infer.visit s <| Infer.plain <| Infer.mutArg ⟨e, e.infer⟩ x
  | .borrow s m e, x, _ => Infer.visit s <| Infer.plain <| Infer.borrow s.span m ⟨e, e.infer⟩ x
  | .construct s name gs fs, _, _ =>
    Infer.visit s <| Infer.plain <|
      Infer.construct s name (GenericArg.asChildren gs) (FieldInit.asChildren fs)
  | .array s es, x, _ => Infer.visit s <| Infer.plain <| Infer.array s.span (Expr.asChildren es) x
  | .tuple s es, x, _ => Infer.visit s <| Infer.plain <| Infer.tuple (Expr.asChildren es) x
  | .mapLit s es, x, _ =>
    Infer.visit s <| Infer.plain <| Infer.mapLit s.span (MapEntry.asChildren es) x
  | .isTest s e ty neg, _, _ =>
    Infer.visit s <| Infer.proving <| Infer.negatedIf neg <| Infer.isTest s.span ⟨e, e.infer⟩ ty
  | .noneCheck s e neg, _, _ =>
    Infer.visit s <| Infer.proving <| Infer.negatedIf neg <| Infer.noneCheck s.span ⟨e, e.infer⟩
  | .cond s c t e, x, used =>
    Infer.visit s <| Infer.plain <|
      Infer.cond s.span ⟨c, c.infer⟩ ⟨t, t.infer⟩ ⟨e, e.infer⟩ x used
  | .guardBind s name v t e, x, used =>
    Infer.visit s <| Infer.plain <|
      Infer.guardBind s.span name ⟨v, v.infer⟩ ⟨t, t.infer⟩ ⟨e, e.infer⟩ x used
  | .matchOn s e as els, x, used =>
    Infer.visit s <| Infer.plain <|
      Infer.matchOn s.span ⟨e, e.infer⟩ (Arm.asChildren as) ⟨els, els.infer⟩ x used
  | .block s ss e, x, used =>
    Infer.visit s <| Infer.plain <| Infer.block (Stmt.asChildren ss) ⟨e, e.infer⟩ x used
  | .ret s e, _, _ => Infer.visit s <| Infer.plain <| Infer.returned s.span ⟨e, e.infer⟩
  | .breakLoop s, _, _ => Infer.visit s <| Infer.plain <| Infer.loopControl s.span .leave
  | .continueLoop s, _, _ => Infer.visit s <| Infer.plain <| Infer.loopControl s.span .next
  | .loop s c b, _, _ => Infer.visit s <| Infer.plain <| Infer.loop ⟨c, c.infer⟩ ⟨b, b.infer⟩

def Expr.asChildren : List Expr → List Child
  | [] => []
  | e :: es => ⟨e, e.infer⟩ :: Expr.asChildren es

def GenericArg.asChildren : List GenericArg → List GenericChild
  | [] => []
  | .type t :: gs => .type t :: GenericArg.asChildren gs
  | .value e :: gs => .value ⟨e, e.infer⟩ :: GenericArg.asChildren gs

def FieldInit.asChildren : List FieldInit → List FieldChild
  | [] => []
  | .mk name e s :: fs => ⟨name, ⟨e, e.infer⟩, s⟩ :: FieldInit.asChildren fs

def MapEntry.asChildren : List MapEntry → List EntryChild
  | [] => []
  | .mk k v _ :: es => ⟨⟨k, k.infer⟩, ⟨v, v.infer⟩⟩ :: MapEntry.asChildren es

def Arm.asChildren : List Arm → List ArmChild
  | [] => []
  | .onType t b s :: as => ⟨.type t, ⟨b, b.infer⟩, s⟩ :: Arm.asChildren as
  | .onValue p b s :: as => ⟨.value ⟨p, p.infer⟩, ⟨b, b.infer⟩, s⟩ :: Arm.asChildren as

def Stmt.asChildren : List Stmt → List StmtChild
  | [] => []
  | .bind s name m t e :: ss => .bind s name m t ⟨e, e.infer⟩ :: Stmt.asChildren ss
  | .assign s t e :: ss => .assign s ⟨t, t.infer⟩ ⟨e, e.infer⟩ :: Stmt.asChildren ss
  | .expr _ e :: ss => .expr ⟨e, e.infer⟩ :: Stmt.asChildren ss

end

namespace Expr

def asChild (e : Expr) : Child := ⟨e, e.infer⟩

end Expr

end TypeFlow
