import TypeFlow.Ty.Build
import TypeFlow.Ty.Flags

namespace TypeFlow.Ty

mutual

-- Offer every node whose flags meet the mask to `leaf`; where it answers, the answer stands in place
-- of the node and is not visited again.
def replace (mask : TypeFlags) (leaf : Ty → Option Ty) (t : Ty) : Ty :=
  if (flags t).meets mask then
    match leaf t with
    | some r => r
    | none =>
      match t with
      | pointer m a => pointer m (replace mask leaf a)
      | reference m a => reference m (replace mask leaf a)
      | fixedArray n a => fixedArray n (replace mask leaf a)
      | dynArray a => dynArray (replace mask leaf a)
      | map k v => map (replace mask leaf k) (replace mask leaf v)
      | tuple ts => mkTuple (replaceAll mask leaf ts)
      | function ps v r => function (replaceAll mask leaf ps) v (replace mask leaf r)
      | option a => option (replace mask leaf a)
      | result a b => result (replace mask leaf a) (replace mask leaf b)
      | channel a => channel (replace mask leaf a)
      | named d ts => named d (replaceAll mask leaf ts)
      | interface d ts => interface d (replaceAll mask leaf ts)
      | union ts => mkUnion (replaceAll mask leaf ts)
      | t => t
  else t

def replaceAll (mask : TypeFlags) (leaf : Ty → Option Ty) : List Ty → List Ty
  | [] => []
  | t :: ts => replace mask leaf t :: replaceAll mask leaf ts

end

theorem replaceAll_eq_map (mask : TypeFlags) (leaf : Ty → Option Ty) (ts : List Ty) :
    replaceAll mask leaf ts = ts.map (replace mask leaf) := by
  induction ts with
  | nil => rfl
  | cons t ts ih => simp [replaceAll, ih]

def paramLeaf (args : List Ty) : Ty → Option Ty
  | param _ i => args[i]?
  | _ => none

def substParams (args : List Ty) (t : Ty) : Ty :=
  if args.isEmpty then t else replace { hasParam := true } (paramLeaf args) t

abbrev VarBindings := List (Nat × Ty)

def varLeaf (bindings : VarBindings) : Ty → Option Ty
  | var i => bindings.lookup i
  | _ => none

def substVars (bindings : VarBindings) (t : Ty) : Ty :=
  replace { hasVar := true } (varLeaf bindings) t

end TypeFlow.Ty
