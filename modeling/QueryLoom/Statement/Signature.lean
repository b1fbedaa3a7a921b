import QueryLoom.Fault

/-!
Signatures of calls: which arguments a call takes, in which order, and which of them have defaults.
Arguments are given by position or by name.
-/

namespace QueryLoom

structure Parameter where
  name : String
  default : Option Value

/-- The parameters of a call: those that may be given by position, and those that are given by name
only. -/
structure Signature where
  positional : List Parameter
  named : List Parameter

namespace Signature

/-- A parameter that has to be given. -/
def required (name : String) : Parameter := ⟨name, none⟩

/-- A parameter that is null unless given. -/
def optional (name : String) : Parameter := ⟨name, some .null⟩

/-- The values of parameters by name; a parameter that has none takes its default. -/
def fillNamed (given : List (String × Value)) : List Parameter → Except Fault (List Value)
  | [] => .ok []
  | p :: rest => do
      let v ←
        match (given.find? fun (name, _) => name == p.name).map Prod.snd, p.default with
        | some v, _ => .ok v
        | none, some v => .ok v
        | none, none => .error .wrongKind
      return v :: (← fillNamed given rest)

/-- The values of the parameters, positional ones first. A call with too many arguments, an unknown
name, or a parameter given twice or not at all is refused. -/
def bind (s : Signature) (args : List Value) (given : List (String × Value)) :
    Except Fault (List Value) := do
  if s.positional.length < args.length then throw .wrongKind
  let remaining := s.positional.drop args.length ++ s.named
  if given.any fun (name, _) => !remaining.any fun p => p.name == name then throw .wrongKind
  return args ++ (← fillNamed given remaining)

end Signature

end QueryLoom
