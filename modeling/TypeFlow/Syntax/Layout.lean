import TypeFlow.Syntax.Numbering

namespace TypeFlow

structure Extent where
  nodes : Nat := 0
  lists : Nat := 0
  stmts : Nat := 0
  arms : Nat := 0
  fields : Nat := 0
  entries : Nat := 0
  generics : Nat := 0
  deriving DecidableEq, Repr

def Extent.add (a b : Extent) : Extent :=
  ⟨a.nodes + b.nodes, a.lists + b.lists, a.stmts + b.stmts, a.arms + b.arms, a.fields + b.fields,
    a.entries + b.entries, a.generics + b.generics⟩

instance : Add Extent := ⟨Extent.add⟩

structure Range where
  start : Nat
  len : Nat
  deriving DecidableEq, Repr

def Range.isEmpty (r : Range) : Bool := r.len == 0

def missingId : Nat := 4294967295

def Expr.rawId (e : Expr) : Nat := (e.site?.map (·.id)).getD missingId

def showId (id : Nat) : String :=
  if id == missingId then "ExprId::INVALID" else "ExprId(" ++ toString id ++ ")"

mutual

def Expr.extent : Expr → Extent
  | .missing => {}
  | .int .. | .float _ | .bool .. | .str .. | .rune .. | .noneLit _ | .nilLit _ | .ident ..
  | .variant .. | .breakLoop _ | .continueLoop _ => { nodes := 1 }
  | .field _ e _ | .neg _ e | .not _ e | .mutArg _ e | .borrow _ _ e | .isTest _ e _ _
  | .noneCheck _ e _ | .ret _ e => e.extent + { nodes := 1 }
  | .index _ a b | .binary _ _ a b | .loop _ a b => a.extent + b.extent + { nodes := 1 }
  | .call _ _ gs as =>
    GenericArg.extentAll gs + Expr.extentAll as
      + { nodes := 1, lists := as.length, generics := gs.length }
  | .method _ e _ as => e.extent + Expr.extentAll as + { nodes := 1, lists := as.length }
  | .construct _ _ gs fs =>
    GenericArg.extentAll gs + FieldInit.extentAll fs
      + { nodes := 1, fields := fs.length, generics := gs.length }
  | .array _ es | .tuple _ es => Expr.extentAll es + { nodes := 1, lists := es.length }
  | .mapLit _ es => MapEntry.extentAll es + { nodes := 1, entries := es.length }
  | .cond _ a b c | .guardBind _ _ a b c => a.extent + b.extent + c.extent + { nodes := 1 }
  | .matchOn _ e as els =>
    e.extent + Arm.extentAll as + els.extent + { nodes := 1, arms := as.length }
  | .block _ ss r => Stmt.extentAll ss + r.extent + { nodes := 1, stmts := ss.length }

def Expr.extentAll : List Expr → Extent
  | [] => {}
  | e :: es => e.extent + Expr.extentAll es

def GenericArg.extentAll : List GenericArg → Extent
  | [] => {}
  | .type _ :: gs => GenericArg.extentAll gs
  | .value e :: gs => e.extent + GenericArg.extentAll gs

def FieldInit.extentAll : List FieldInit → Extent
  | [] => {}
  | .mk _ e _ :: fs => e.extent + FieldInit.extentAll fs

def MapEntry.extentAll : List MapEntry → Extent
  | [] => {}
  | .mk k v _ :: es => k.extent + v.extent + MapEntry.extentAll es

def Arm.extentAll : List Arm → Extent
  | [] => {}
  | .onType _ b _ :: as => b.extent + Arm.extentAll as
  | .onValue p b _ :: as => p.extent + b.extent + Arm.extentAll as

def Stmt.extentAll : List Stmt → Extent
  | [] => {}
  | .bind _ _ _ _ e :: ss | .expr _ e :: ss => e.extent + Stmt.extentAll ss
  | .assign _ t e :: ss => t.extent + e.extent + Stmt.extentAll ss

end

def Expr.innerExtent : Expr → Extent
  | .missing | .int .. | .float _ | .bool .. | .str .. | .rune .. | .noneLit _ | .nilLit _ | .ident ..
  | .variant .. | .breakLoop _ | .continueLoop _ => {}
  | .field _ e _ | .neg _ e | .not _ e | .mutArg _ e | .borrow _ _ e | .isTest _ e _ _
  | .noneCheck _ e _ | .ret _ e => e.extent
  | .index _ a b | .binary _ _ a b | .loop _ a b => a.extent + b.extent
  | .call _ _ gs as => GenericArg.extentAll gs + Expr.extentAll as
  | .method _ e _ as => e.extent + Expr.extentAll as
  | .construct _ _ gs fs => GenericArg.extentAll gs + FieldInit.extentAll fs
  | .array _ es | .tuple _ es => Expr.extentAll es
  | .mapLit _ es => MapEntry.extentAll es
  | .cond _ a b c | .guardBind _ _ a b c => a.extent + b.extent + c.extent
  | .matchOn _ e as els => e.extent + Arm.extentAll as + els.extent
  | .block _ ss r => Stmt.extentAll ss + r.extent

mutual

def Expr.sites : Expr → List Site
  | .missing => []
  | .int s _ | .float s | .bool s _ | .str s _ | .rune s _ | .noneLit s | .nilLit s | .ident s _
  | .variant s _ _ | .breakLoop s | .continueLoop s => [s]
  | .field s e _ | .neg s e | .not s e | .mutArg s e | .borrow s _ e | .isTest s e _ _
  | .noneCheck s e _ | .ret s e => e.sites ++ [s]
  | .index s a b | .binary s _ a b | .loop s a b => a.sites ++ b.sites ++ [s]
  | .call s _ gs as => GenericArg.sitesAll gs ++ Expr.sitesAll as ++ [s]
  | .method s e _ as => e.sites ++ Expr.sitesAll as ++ [s]
  | .construct s _ gs fs => GenericArg.sitesAll gs ++ FieldInit.sitesAll fs ++ [s]
  | .array s es | .tuple s es => Expr.sitesAll es ++ [s]
  | .mapLit s es => MapEntry.sitesAll es ++ [s]
  | .cond s a b c | .guardBind s _ a b c => a.sites ++ b.sites ++ c.sites ++ [s]
  | .matchOn s e as els => e.sites ++ Arm.sitesAll as ++ els.sites ++ [s]
  | .block s ss r => Stmt.sitesAll ss ++ r.sites ++ [s]

def Expr.sitesAll : List Expr → List Site
  | [] => []
  | e :: es => e.sites ++ Expr.sitesAll es

def GenericArg.sitesAll : List GenericArg → List Site
  | [] => []
  | .type _ :: gs => GenericArg.sitesAll gs
  | .value e :: gs => e.sites ++ GenericArg.sitesAll gs

def FieldInit.sitesAll : List FieldInit → List Site
  | [] => []
  | .mk _ e _ :: fs => e.sites ++ FieldInit.sitesAll fs

def MapEntry.sitesAll : List MapEntry → List Site
  | [] => []
  | .mk k v _ :: es => k.sites ++ v.sites ++ MapEntry.sitesAll es

def Arm.sitesAll : List Arm → List Site
  | [] => []
  | .onType _ b _ :: as => b.sites ++ Arm.sitesAll as
  | .onValue p b _ :: as => p.sites ++ b.sites ++ Arm.sitesAll as

def Stmt.sitesAll : List Stmt → List Site
  | [] => []
  | .bind _ _ _ _ e :: ss | .expr _ e :: ss => e.sites ++ Stmt.sitesAll ss
  | .assign _ t e :: ss => t.sites ++ e.sites ++ Stmt.sitesAll ss

end

inductive Layout where
  | call (generics args : Range) (ids : List Nat)
  | list (args : Range) (ids : List Nat)
  | construct (fields : Range) (ids : List Nat)
  | entries (entries : Range) (ids : List (Nat × Nat))
  | arms (arms : Range) (bodies : List Nat)
  | block (stmts : Range) (spans : List Span) (result : Option Nat)
  | unary (negation : Bool)
  | binary (op : BinaryOp)

def Expr.layout (before : Extent) (e : Expr) : Option Layout :=
  let free := before + e.innerExtent
  match e with
  | .call _ _ gs as =>
    some (.call ⟨free.generics, gs.length⟩ ⟨free.lists, as.length⟩ (as.map Expr.rawId))
  | .method _ _ _ as | .array _ as | .tuple _ as =>
    some (.list ⟨free.lists, as.length⟩ (as.map Expr.rawId))
  | .construct _ _ _ fs =>
    some (.construct ⟨free.fields, fs.length⟩ (fs.map fun f => f.value.rawId))
  | .mapLit _ es =>
    some (.entries ⟨free.entries, es.length⟩ (es.map fun m => (m.key.rawId, m.value.rawId)))
  | .matchOn _ _ as _ => some (.arms ⟨free.arms, as.length⟩ (as.map fun a => a.body.rawId))
  | .block _ ss r => some (.block ⟨free.stmts, ss.length⟩ (ss.map Stmt.span) (r.site?.map (·.id)))
  | .neg .. => some (.unary true)
  | .not .. => some (.unary false)
  | .binary _ op _ _ => some (.binary op)
  | _ => none

structure Store where
  roots : List Expr := []
  extent : Extent := {}

namespace Store

def push (s : Store) (e : Expr) : Store :=
  ⟨s.roots ++ [(e.number s.extent.nodes).1], s.extent + e.extent⟩

def spanOf (s : Store) (id : Nat) : Option Span :=
  ((Expr.sitesAll s.roots).find? (·.id == id)).map (·.span)

end Store

end TypeFlow
