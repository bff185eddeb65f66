import TypeFlow.Infer.Child

namespace TypeFlow

namespace Ty

def literalTarget : Ty → Ty
  | option t => t.literalTarget
  | result t _ => t.literalTarget
  | t => t

def literalPrimitive (expected : Option Ty) : Option Primitive :=
  expected.bind fun t => t.literalTarget.primitive?

def ofInt (value : Int) (expected : Option Ty) : Ty :=
  match (literalPrimitive expected).filter fun p => p.holds value || p.isFloat with
  | some p => .prim p
  | none => if Primitive.i32.holds value then .prim .i32 else .prim .i64

def ofFloat (expected : Option Ty) : Ty :=
  match (literalPrimitive expected).filter (·.isFloat) with
  | some p => .prim p
  | none => .prim .f64

def ofNone : Option Ty → Ty
  | some (option t) => option t
  | _ => untypedNone

def ofNil : Option Ty → Ty
  | some (pointer m t) => pointer m t
  | _ => untypedNil

end Ty

namespace Infer

def ident (span : Span) (name : String) : Infer Ty := do
  match ← lookupLocal name with
  | some l => readLocal name l
  | none =>
    let r ← registry
    match r.constant name with
    | some info => return info.ty
    | none =>
      match r.function name with
      | some sig =>
        match sig.generics with
        | [] => return sig.fnType
        | p :: _ => report span (.unresolvedGeneric p.name)
      | none => report span (.unknownIdent name)

def enumVariant (span : Span) (enum name : String) : Infer Ty := do
  let r ← registry
  match r.declNamed enum with
  | none => report span (.unknownType enum)
  | some d =>
    match r.kind? d with
    | some (.enum _ variants _) =>
      if variants.contains name then return .named d []
      else report span (.unknownMember (.named d []) name)
    | _ => report span (.unknownMember (.named d []) name)

def knownPath (path : Option Path) : Infer (Option Ty) := do
  match ← localPath path with
  | some p => narrowed p
  | none => return none

def field (span : Span) (receiver : Child) (name : String) : Infer Ty := do
  let t ← receiver.infer none
  if t.isError then return .error
  match ← knownPath (receiver.path?.map (·.field name)) with
  | some n => return n
  | none =>
    match (← registry).fieldType t name with
    | some f => return f
    | none => report span (.unknownMember t name)

def integerIndex (index : Child) : Infer Unit := do
  let t ← index.infer (some (.prim .usize))
  let isInt := match t with
    | .prim p => p.isInteger
    | _ => false
  unless t.isError || isInt do
    discard <| report index.span (.mismatch (.prim .usize) t)

def indexed (span : Span) (receiver index : Child) : Infer Ty := do
  let t ← receiver.infer none
  if t.isError then
    discard <| index.infer none
    return .error
  match t.deref with
  | .fixedArray _ elem | .dynArray elem =>
    integerIndex index
    return elem
  | .prim .string =>
    integerIndex index
    return .prim .u8
  | .map key value =>
    discard <| check index key
    return value
  | _ =>
    discard <| index.infer none
    report span (.notIndexable t)

end Infer

end TypeFlow
