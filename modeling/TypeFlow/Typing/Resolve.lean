import TypeFlow.Decl.Registry
import TypeFlow.Syntax.Written

namespace TypeFlow

inductive ResolveError where
  | unknownType (name : String)
  | genericArgCount (name : String) (min max found : Nat)
  | constArgExpected (name param : String)
  deriving DecidableEq, Repr

namespace Registry

def nullary (name : String) (found : Nat) (t : Ty) : Except ResolveError Ty :=
  if found == 0 then .ok t else .error (.genericArgCount name 0 0 found)

def constArg (r : Registry) (scope : Generics) (w : Written) : Option Ty :=
  match w.bareName with
  | none => none
  | some name =>
    match (scope.find name).filter (·.isConst) with
    | some p => some p.ty
    | none => (r.constant name).bind fun c => c.value.map Ty.const

def fillDefaults : Generics → List Ty → List Ty
  | [], done => done
  | p :: ps, done => fillDefaults ps (done ++ [(p.default.map (Ty.substParams done)).getD .error])

def builtinType (name : String) : Option Ty :=
  if name == "void" then some .unit
  else if name == "never" then some .never
  else (Primitive.ofName? name).map Ty.prim

mutual

def resolve (r : Registry) (scope : Generics) : Written → Except ResolveError Ty
  | .named name args =>
    match scope.find name with
    | some p => nullary name args.length p.ty
    | none =>
      match builtinType name with
      | some t => nullary name args.length t
      | none =>
        match r.typeDef name with
        | some (.alias t) => nullary name args.length t
        | some (.decl id) =>
          match r.decl? id with
          | some info =>
            if info.generics.acceptsCount args.length then do
              let args ← resolveArgs r scope name args info.generics []
              return info.instantiate id args
            else .error (.genericArgCount name info.generics.required info.generics.length args.length)
          | none => .error (.unknownType name)
        | none => .error (.unknownType name)
  | .pointer m t => return .pointer m (← resolve r scope t)
  | .reference m t => return .reference m (← resolve r scope t)
  | .fixedArray n t => return .fixedArray n (← resolve r scope t)
  | .dynArray t => return .dynArray (← resolve r scope t)
  | .map k v => return .map (← resolve r scope k) (← resolve r scope v)
  | .tuple ts => return .mkTuple (← resolveAll r scope ts)
  | .function ps v t => return .function (← resolveAll r scope ps) v (← resolve r scope t)
  | .option t => return .option (← resolve r scope t)
  | .result a b => return .result (← resolve r scope a) (← resolve r scope b)
  | .channel t => return .channel (← resolve r scope t)
  | .union ts => return .mkUnion (← resolveAll r scope ts)
  | .never => return .never

def resolveAll (r : Registry) (scope : Generics) : List Written → Except ResolveError (List Ty)
  | [] => return []
  | t :: ts => return (← resolve r scope t) :: (← resolveAll r scope ts)

def resolveArgs (r : Registry) (scope : Generics) (name : String) :
    List Written → Generics → List Ty → Except ResolveError (List Ty)
  | [], ps, done => return fillDefaults ps done
  | _ :: _, [], done => return done
  | w :: ws, p :: ps, done =>
    if p.isConst then
      match constArg r scope w with
      | some t => resolveArgs r scope name ws ps (done ++ [t])
      | none => .error (.constArgExpected name p.name)
    else do
      let t ← resolve r scope w
      resolveArgs r scope name ws ps (done ++ [t])

end

end Registry

end TypeFlow
