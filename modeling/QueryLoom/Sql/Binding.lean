import QueryLoom.Fault
import QueryLoom.Sql.Placeholder
import QueryLoom.Value.Equality

/-!
Binding: an SQL text with named placeholders becomes one in the style of a database driver, with the
values in the order or under the names that the style asks for. A placeholder that no parameter
belongs to stays as it is. For showing a statement, values can be written into the text instead.
-/

namespace QueryLoom

/-- How a database driver writes its placeholders. -/
inductive ParamStyle
  | qmark | format | pyformat | numeric | named
deriving DecidableEq, Repr

namespace ParamStyle

def all : List ParamStyle := [.qmark, .format, .pyformat, .numeric, .named]

def name : ParamStyle → String
  | .qmark => "qmark"
  | .format => "format"
  | .pyformat => "pyformat"
  | .numeric => "numeric"
  | .named => "named"

def ofName? (s : String) : Option ParamStyle := all.find? fun style => style.name == s

/-- Whether the driver formats the statement by `%`, so that a percent sign has to be doubled. -/
def formatsPercent : ParamStyle → Bool
  | .format | .pyformat => true
  | .qmark | .numeric | .named => false

/-- Whether the values are handed over under their names. -/
def byName : ParamStyle → Bool
  | .named | .pyformat => true
  | .qmark | .format | .numeric => false

theorem byName_iff (style : ParamStyle) :
    style.byName = true ↔ style = .named ∨ style = .pyformat := by
  cases style <;> decide

/-- The marker of a placeholder that is the `position`-th of its statement, from one on. -/
def marker (style : ParamStyle) (position : Nat) (name : String) : String :=
  match style with
  | .qmark => "?"
  | .format => "%s"
  | .pyformat => "%(" ++ name ++ ")s"
  | .numeric => ":" ++ toString position
  | .named => ":" ++ name

end ParamStyle

namespace Binding

/-- A stretch of a statement: text, or a placeholder with the value it is bound to. -/
inductive Part
  | text (cs : List Char)
  | bound (name : String) (value : Value)

/-- The stretches of a statement. A placeholder without a parameter is text. -/
def parts (backslash : Bool) (params : Dict) (sql : String) : List Part :=
  (Placeholder.spans backslash sql.toList).map fun
    | .copied cs => .text cs
    | .placeholder name =>
        match Dict.get? params (String.ofList name) with
        | some value => .bound (String.ofList name) value
        | none => .text (':' :: name)

/-- The values of the placeholders, with their names, in the order of the text. -/
def values : List Part → List (String × Value)
  | [] => []
  | .text _ :: rest => values rest
  | .bound name value :: rest => (name, value) :: values rest

/-- Text as it stands in a statement of the style; `bindsAny` tells whether the statement binds a
value, since only then the driver formats it. -/
def styledText (style : ParamStyle) (bindsAny : Bool) (cs : List Char) : List Char :=
  if bindsAny && style.formatsPercent then
    cs.flatMap fun c => if c == '%' then ['%', '%'] else [c]
  else cs

/-- The statement with the markers of a style; `position` counts the placeholders before it. -/
def styled (style : ParamStyle) (bindsAny : Bool) (position : Nat) : List Part → List String
  | [] => []
  | .text cs :: rest =>
      String.ofList (styledText style bindsAny cs) :: styled style bindsAny position rest
  | .bound name _ :: rest =>
      style.marker (position + 1) name :: styled style bindsAny (position + 1) rest

/-- A statement in the style of a driver, with its values: a list, or a dictionary of names. -/
def bind (sql : String) (params : Dict) (style : ParamStyle) (backslash : Bool) :
    String × Value :=
  let all := parts backslash params sql
  let found := values all
  let statement := String.join (styled style (!found.isEmpty) 0 all)
  let entries : Dict := found.map fun (name, value) => (.str name, value)
  (statement, if style.byName then .dict (Assoc.ofList entries) else .list (found.map Prod.snd))

/-- The text of a stretch, of which the value is rendered. -/
def Part.rendered (render : Value → Except Fault String) : Part → Except Fault String
  | .text cs => .ok (String.ofList cs)
  | .bound _ value => render value

/-- A statement with its values written into the text, to be read and not to be run. -/
def inline (sql : String) (params : Dict) (render : Value → Except Fault String)
    (backslash : Bool) : Except Fault String := do
  return String.join (← (parts backslash params sql).mapM (Part.rendered render))

def names (backslash : Bool) (sql : String) : List String :=
  (Placeholder.spans backslash sql.toList).filterMap fun
    | .copied _ => none
    | .placeholder name => some (String.ofList name)

/-- The parameters that a caller has given as a value. A value that is no dictionary will do only
for a statement that finds none of its names there. -/
def suppliedParams (backslash : Bool) (sql : String) (v : Value) : Except Fault Dict :=
  match v with
  | .dict entries => .ok entries
  | .list items =>
      if (names backslash sql).any fun name => items.contains (.str name) then .error .wrongKind
      else .ok []
  | _ => if (names backslash sql).isEmpty then .ok [] else .error .wrongKind

end Binding

end QueryLoom
