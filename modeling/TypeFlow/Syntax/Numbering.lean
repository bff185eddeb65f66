import TypeFlow.Syntax.Expr

namespace TypeFlow

abbrev Numbered (α : Type) := Nat → α × Nat

mutual

def Expr.number : Expr → Numbered Expr
  | .missing, n => (.missing, n)
  | .int s v, n => (.int ⟨n, s.span⟩ v, n + 1)
  | .float s, n => (.float ⟨n, s.span⟩, n + 1)
  | .bool s v, n => (.bool ⟨n, s.span⟩ v, n + 1)
  | .str s v, n => (.str ⟨n, s.span⟩ v, n + 1)
  | .rune s v, n => (.rune ⟨n, s.span⟩ v, n + 1)
  | .noneLit s, n => (.noneLit ⟨n, s.span⟩, n + 1)
  | .nilLit s, n => (.nilLit ⟨n, s.span⟩, n + 1)
  | .ident s x, n => (.ident ⟨n, s.span⟩ x, n + 1)
  | .variant s e x, n => (.variant ⟨n, s.span⟩ e x, n + 1)
  | .field s e x, n =>
    let (e, n) := e.number n
    (.field ⟨n, s.span⟩ e x, n + 1)
  | .index s e i, n =>
    let (e, n) := e.number n
    let (i, n) := i.number n
    (.index ⟨n, s.span⟩ e i, n + 1)
  | .neg s e, n =>
    let (e, n) := e.number n
    (.neg ⟨n, s.span⟩ e, n + 1)
  | .not s e, n =>
    let (e, n) := e.number n
    (.not ⟨n, s.span⟩ e, n + 1)
  | .binary s op l r, n =>
    let (l, n) := l.number n
    let (r, n) := r.number n
    (.binary ⟨n, s.span⟩ op l r, n + 1)
  | .call s f gs as, n =>
    let (gs, n) := GenericArg.numberAll gs n
    let (as, n) := Expr.numberAll as n
    (.call ⟨n, s.span⟩ f gs as, n + 1)
  | .method s e f as, n =>
    let (e, n) := e.number n
    let (as, n) := Expr.numberAll as n
    (.method ⟨n, s.span⟩ e f as, n + 1)
  | .mutArg s e, n =>
    let (e, n) := e.number n
    (.mutArg ⟨n, s.span⟩ e, n + 1)
  | .borrow s m e, n =>
    let (e, n) := e.number n
    (.borrow ⟨n, s.span⟩ m e, n + 1)
  | .construct s x gs fs, n =>
    let (gs, n) := GenericArg.numberAll gs n
    let (fs, n) := FieldInit.numberAll fs n
    (.construct ⟨n, s.span⟩ x gs fs, n + 1)
  | .array s es, n =>
    let (es, n) := Expr.numberAll es n
    (.array ⟨n, s.span⟩ es, n + 1)
  | .tuple s es, n =>
    let (es, n) := Expr.numberAll es n
    (.tuple ⟨n, s.span⟩ es, n + 1)
  | .mapLit s es, n =>
    let (es, n) := MapEntry.numberAll es n
    (.mapLit ⟨n, s.span⟩ es, n + 1)
  | .isTest s e t neg, n =>
    let (e, n) := e.number n
    (.isTest ⟨n, s.span⟩ e t neg, n + 1)
  | .noneCheck s e neg, n =>
    let (e, n) := e.number n
    (.noneCheck ⟨n, s.span⟩ e neg, n + 1)
  | .cond s c t e, n =>
    let (c, n) := c.number n
    let (t, n) := t.number n
    let (e, n) := e.number n
    (.cond ⟨n, s.span⟩ c t e, n + 1)
  | .guardBind s x v t e, n =>
    let (v, n) := v.number n
    let (t, n) := t.number n
    let (e, n) := e.number n
    (.guardBind ⟨n, s.span⟩ x v t e, n + 1)
  | .matchOn s e as els, n =>
    let (e, n) := e.number n
    let (as, n) := Arm.numberAll as n
    let (els, n) := els.number n
    (.matchOn ⟨n, s.span⟩ e as els, n + 1)
  | .block s ss r, n =>
    let (ss, n) := Stmt.numberAll ss n
    let (r, n) := r.number n
    (.block ⟨n, s.span⟩ ss r, n + 1)
  | .ret s e, n =>
    let (e, n) := e.number n
    (.ret ⟨n, s.span⟩ e, n + 1)
  | .breakLoop s, n => (.breakLoop ⟨n, s.span⟩, n + 1)
  | .continueLoop s, n => (.continueLoop ⟨n, s.span⟩, n + 1)
  | .loop s c b, n =>
    let (c, n) := c.number n
    let (b, n) := b.number n
    (.loop ⟨n, s.span⟩ c b, n + 1)

def Expr.numberAll : List Expr → Numbered (List Expr)
  | [], n => ([], n)
  | e :: es, n =>
    let (e, n) := e.number n
    let (es, n) := Expr.numberAll es n
    (e :: es, n)

def GenericArg.numberAll : List GenericArg → Numbered (List GenericArg)
  | [], n => ([], n)
  | .type t :: gs, n =>
    let (gs, n) := GenericArg.numberAll gs n
    (.type t :: gs, n)
  | .value e :: gs, n =>
    let (e, n) := e.number n
    let (gs, n) := GenericArg.numberAll gs n
    (.value e :: gs, n)

def FieldInit.numberAll : List FieldInit → Numbered (List FieldInit)
  | [], n => ([], n)
  | .mk x e s :: fs, n =>
    let (e, n) := e.number n
    let (fs, n) := FieldInit.numberAll fs n
    (.mk x e s :: fs, n)

def MapEntry.numberAll : List MapEntry → Numbered (List MapEntry)
  | [], n => ([], n)
  | .mk k v s :: es, n =>
    let (k, n) := k.number n
    let (v, n) := v.number n
    let (es, n) := MapEntry.numberAll es n
    (.mk k v s :: es, n)

def Arm.numberAll : List Arm → Numbered (List Arm)
  | [], n => ([], n)
  | .onType t b s :: as, n =>
    let (b, n) := b.number n
    let (as, n) := Arm.numberAll as n
    (.onType t b s :: as, n)
  | .onValue p b s :: as, n =>
    let (p, n) := p.number n
    let (b, n) := b.number n
    let (as, n) := Arm.numberAll as n
    (.onValue p b s :: as, n)

def Stmt.numberAll : List Stmt → Numbered (List Stmt)
  | [], n => ([], n)
  | .bind s x m t e :: ss, n =>
    let (e, n) := e.number n
    let (ss, n) := Stmt.numberAll ss n
    (.bind s x m t e :: ss, n)
  | .assign s t e :: ss, n =>
    let (t, n) := t.number n
    let (e, n) := e.number n
    let (ss, n) := Stmt.numberAll ss n
    (.assign s t e :: ss, n)
  | .expr s e :: ss, n =>
    let (e, n) := e.number n
    let (ss, n) := Stmt.numberAll ss n
    (.expr s e :: ss, n)

end

end TypeFlow
