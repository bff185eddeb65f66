import TypeFlow.Infer.Child

namespace TypeFlow

def Ty.collectionHint : Ty → Ty
  | .option t => t.collectionHint
  | t => t

namespace Infer

def checkAll (ty : Ty) : List Child → Infer Unit
  | [] => return
  | c :: cs => do
    discard <| check c ty
    checkAll ty cs

def array (span : Span) (elems : List Child) (expected : Option Ty) : Infer Ty := do
  match expected.map Ty.collectionHint with
  | some (.dynArray elem) =>
    checkAll elem elems
    return .dynArray elem
  | some (.fixedArray len elem) =>
    checkAll elem elems
    return if len == elems.length then .fixedArray len elem else .dynArray elem
  | _ =>
    match elems with
    | [] => report span .untypedLiteral
    | first :: rest =>
      let elem ← first.infer none
      checkAll elem rest
      return if elem.isError then .error else .dynArray elem

def checkEntries (key value : Ty) : List EntryChild → Infer Unit
  | [] => return
  | e :: es => do
    discard <| check e.key key
    discard <| check e.value value
    checkEntries key value es

def mapLit (span : Span) (entries : List EntryChild) (expected : Option Ty) : Infer Ty := do
  match expected.map Ty.collectionHint with
  | some (.map key value) =>
    checkEntries key value entries
    return .map key value
  | _ =>
    match entries with
    | [] => report span .untypedLiteral
    | first :: rest =>
      let key ← first.key.infer none
      let value ← first.value.infer none
      checkEntries key value rest
      return if key.isError || value.isError then .error else .map key value

def inferEach : List Child → List (Option Ty) → Infer (List Ty)
  | [], _ => return []
  | c :: cs, hints => do
    let t ← c.infer (hints.headD none)
    return t :: (← inferEach cs hints.tail)

def tuple (elems : List Child) (expected : Option Ty) : Infer Ty := do
  let hints : List (Option Ty) :=
    match expected.map Ty.collectionHint with
    | some (.tuple ts) => if ts.length == elems.length then ts.map some else []
    | _ => []
  return .mkTuple (← inferEach elems hints)

end Infer

end TypeFlow
