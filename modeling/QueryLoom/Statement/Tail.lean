import QueryLoom.Statement.Conditions

/-!
The end of a statement: WHERE, GROUP BY, HAVING, ORDER BY and LIMIT, in this order whatever the order
of the entries. Reserved keys hold the clauses after WHERE; all other entries are conditions.
-/

namespace QueryLoom.Tail

def groupKey : String := "GROUP"

def havingKey : String := "HAVING"

def orderKey : String := "ORDER"

def limitKey : String := "LIMIT"

/-- The keys that are never compiled as conditions. -/
def reservedKeys : List String := [groupKey, havingKey, orderKey, limitKey, "LIKE", "MATCH"]

def isReserved : Value → Bool
  | .str key => reservedKeys.contains key
  | _ => false

def conditionEntries (entries : Dict) : Dict := entries.filter fun (key, _) => !isReserved key

def malformed {α : Type} (key : String) (reason : Reason) (clause : Clause) : Compile α :=
  throw (.malformedCondition key reason clause)

def columnList (t : Target) : List Value → Compile (List Sql)
  | [] => pure []
  | v :: rest => do
      let first ← t.column v
      return first :: (← columnList t rest)

def group (t : Target) : Value → Compile Sql
  | .raw sql parameters => t.splice sql parameters
  | .str name => t.column name
  | .list columns => do return Sql.join ", " (← columnList t columns)
  | .bytes octets => do
      return Sql.join ", " (← columnList t (octets.map fun o => .int o.toNat))
  | _ => malformed groupKey .badGroup .groupBy

/-- The direction that a text names, in any letter case. -/
def direction? (s : String) : Option String :=
  ["ASC", "DESC"].find? fun d => d == Text.keywordForm s

/-- The order by one entry of a dictionary: a column with its direction, a column that is ranked by
a list of values, or, under a number, a column alone. -/
def orderEntry (t : Target) (key v : Value) : Compile Sql :=
  match key.integer?, v with
  | some _, .str name => t.column name
  | _, _ => do
      let column ← t.column key
      let bad := malformed (orderKey ++ "." ++ key.plain) .badDirection .orderBy
      match v with
      | .str text =>
          match direction? text with
          | some direction => return column ++ [.text (" " ++ direction)]
          | none => bad
      | .list (first :: rest) => do
          let literals ← Compile.lift ((first :: rest).mapM t.dialect.literal)
          return t.dialect.customOrder column literals
      | _ => bad

def orderEntries (t : Target) : List (Value × Value) → Compile (List Sql)
  | [] => pure []
  | (key, v) :: rest => do
      let first ← orderEntry t key v
      return first :: (← orderEntries t rest)

def orderItems (t : Target) : List Value → Compile (List Sql)
  | [] => pure []
  | v :: rest => do
      let first ←
        match v with
        | .str name => do pure [← t.column name]
        | .dict entries => orderEntries t entries
        | .raw sql parameters => do pure [← t.splice sql parameters]
        | other =>
            throw (.showing other (.malformedCondition orderKey (.badOrderEntry other) .orderBy))
      return first ++ (← orderItems t rest)

def order (t : Target) : Value → Compile Sql
  | .raw sql parameters => t.splice sql parameters
  | .str name => t.column name
  | .dict entries => do return Sql.join ", " (← orderEntries t entries)
  | .list items => do return Sql.join ", " (← orderItems t items)
  | .bytes octets => do
      return Sql.join ", " (← orderItems t (octets.map fun o => .int o.toNat))
  | _ => malformed orderKey .badOrder .orderBy

/-- A number of rows. -/
def count? : Value → Option Nat
  | .int i => if 0 ≤ i then some i.toNat else none
  | _ => none

/-- How many rows are taken, and how many are passed over. -/
def limit (v : Value) : Compile Sql :=
  let bad := malformed limitKey .badLimit .limit
  match v with
  | .list [offset, size] =>
      match count? offset, count? size with
      | some offset, some size => do
          Compile.requireText v
          return [.text ("LIMIT " ++ toString size ++ " OFFSET " ++ toString offset)]
      | _, _ => bad
  | v =>
      match count? v with
      | some size => do
          Compile.requireText v
          return [.text ("LIMIT " ++ toString size)]
      | none => bad

/-- A clause that is present if its value counts as true. -/
def whenTruthy (v : Value) (keyword : String) (body : Value → Compile Sql) : Compile (List Sql) :=
  if v.truthy then do return [.text keyword :: (← body v)] else pure []

/-- The body of HAVING. -/
def having (t : Target) : Value → Compile Sql
  | .raw sql parameters => t.splice sql parameters
  | v => Conditions.compile ⟨t, .having⟩ .and v

/-- Compiles the end of a statement; it is empty if nothing is asked for. -/
def compile (t : Target) : Value → Compile Sql
  | .null => pure []
  | .raw sql parameters => t.splice sql parameters
  | .dict entries => do
      let conditions := conditionEntries entries
      let filter ← whenTruthy (.dict conditions) "WHERE " (Conditions.compile ⟨t, .filter⟩ .and)
      let groupBy ← whenTruthy (Dict.getD entries groupKey) "GROUP BY " (group t)
      let having ← whenTruthy (Dict.getD entries havingKey) "HAVING " (having t)
      let orderBy ← whenTruthy (Dict.getD entries orderKey) "ORDER BY " (order t)
      let limit ←
        match Dict.getD entries limitKey with
        | .null => pure []
        | v => do pure [← limit v]
      return Sql.join " " (filter ++ groupBy ++ having ++ orderBy ++ limit)
  | v => throw (.showing v (.malformedCondition v .whereNotDict .filter))

end QueryLoom.Tail
