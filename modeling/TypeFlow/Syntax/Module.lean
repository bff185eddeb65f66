import TypeFlow.Syntax.Numbering

namespace TypeFlow

inductive GenericItemKind where
  | type (bounds : List Written) (default : Option Written)
  | const (ty : Written)

structure GenericItem where
  name : String
  kind : GenericItemKind
  span : Span

structure ParamItem where
  name : String
  ty : Written
  mutable : Bool
  span : Span

structure FunctionItem where
  name : String
  generics : List GenericItem
  params : List ParamItem
  variadic : Bool
  ret : Option Written
  body : Expr
  span : Span

structure MethodItem where
  receiverType : String
  receiverName : String
  mutReceiver : Bool
  name : String
  params : List ParamItem
  ret : Option Written
  body : Expr
  span : Span

structure FieldItem where
  name : String
  ty : Written
  span : Span

structure StructItem where
  name : String
  generics : List GenericItem
  fields : List FieldItem
  implements : List Written
  span : Span

structure EnumItem where
  name : String
  backing : Option Written
  variants : List String
  implements : List Written
  span : Span

structure InterfaceItem where
  name : String
  generics : List GenericItem
  isSealed : Bool
  span : Span

structure AliasItem where
  name : String
  target : Written
  span : Span

structure ConstItem where
  name : String
  ty : Option Written
  value : Expr
  span : Span

structure Module where
  functions : List FunctionItem := []
  methods : List MethodItem := []
  structs : List StructItem := []
  enums : List EnumItem := []
  interfaces : List InterfaceItem := []
  aliases : List AliasItem := []
  consts : List ConstItem := []

namespace Module

def numberConsts : List ConstItem → Numbered (List ConstItem)
  | [], n => ([], n)
  | c :: cs, n =>
    let (e, n) := c.value.number n
    let (cs, n) := numberConsts cs n
    ({ c with value := e } :: cs, n)

def numberFunctions : List FunctionItem → Numbered (List FunctionItem)
  | [], n => ([], n)
  | f :: fs, n =>
    let (e, n) := f.body.number n
    let (fs, n) := numberFunctions fs n
    ({ f with body := e } :: fs, n)

def numberMethods : List MethodItem → Numbered (List MethodItem)
  | [], n => ([], n)
  | m :: ms, n =>
    let (e, n) := m.body.number n
    let (ms, n) := numberMethods ms n
    ({ m with body := e } :: ms, n)

def number (m : Module) : Module × Nat :=
  let (consts, n) := numberConsts m.consts 0
  let (functions, n) := numberFunctions m.functions n
  let (methods, n) := numberMethods m.methods n
  ({ m with consts, functions, methods }, n)

end Module

end TypeFlow
