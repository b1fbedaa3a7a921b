import QueryLoom.Fault
import QueryLoom.Sql.Dialect
import QueryLoom.Text.Blank
import QueryLoom.Text.LetterCase
import QueryLoom.Value.Assoc

/-!
The registry of dialects: names, and further names that lead to them. Names are compared without the
blanks around them and in small letters. A further name is looked up before a name. What stands for a
dialect in a registry may be of any type.
-/

namespace QueryLoom

structure DialectTable (κ : Type) where
  dialects : List (String × κ)
  aliases : List (String × String)

abbrev Registry := DialectTable Dialect

namespace DialectTable

variable {κ : Type}

/-- The form in which names are compared. -/
def nameForm (name : String) : String := Text.smallLetters (Text.trimmed name)

/-- Registers a dialect under a name and under further names that lead to it. -/
def register (r : DialectTable κ) (name : String) (dialect : κ) (aliases : List String) :
    DialectTable κ :=
  let canonical := nameForm name
  ⟨Assoc.insert canonical dialect r.dialects,
    Assoc.merge r.aliases (aliases.map fun a => (nameForm a, canonical))⟩

/-- The canonical form of a name, which need not be registered. -/
def resolve (r : DialectTable κ) (name : String) : String :=
  let form := nameForm name
  (Assoc.get? form r.aliases).getD form

def targets (r : DialectTable κ) : List String :=
  (r.dialects.map Prod.fst).mergeSort fun a b => decide (a ≤ b)

def create (r : DialectTable κ) (name : String) : Except Fault κ :=
  match Assoc.get? (r.resolve name) r.dialects with
  | some dialect => .ok dialect
  | none => .error (.refused (.unknownDialect name r.targets))

/-- The registry of the built-in dialects, by what stands for them. -/
def builtIn (entry : Dialect → κ) : DialectTable κ :=
  (((DialectTable.mk [] []).register "sqlite" (entry .sqlite) []).register "postgres"
    (entry .postgres) ["postgresql", "pgsql"]).register "mysql" (entry .mysql) ["mariadb"]

end DialectTable

def Registry.builtIn : Registry := DialectTable.builtIn id

end QueryLoom
