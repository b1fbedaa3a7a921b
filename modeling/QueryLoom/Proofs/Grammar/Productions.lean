import QueryLoom.Proofs.Conditions.Predicate
import QueryLoom.Proofs.Statement.Heads
import QueryLoom.Statement.Verb

/-!
The grammar of statements. Its sentences are rows of pieces, since a quoted name, a placeholder and
a literal are each one symbol whatever characters they hold. The clauses after the tables stand in
one order, each at most once, and none of them is without a body.

    query      := head FROM table [AS label] {join} {clause}
    join       := direction JOIN table [AS label] (USING (names) | ON equalities)
    clause     := [WHERE predicates] [GROUP BY columns] [HAVING predicates] [ORDER BY orders] [LIMIT]
-/

namespace QueryLoom.Grammar

/-- What the grammar leaves open: which texts are calls of functions, what the literals of the
dialect are, and whether an order may be without items. -/
structure Rules where
  Call : String → Prop
  dialect : Dialect
  EmptyOrder : Prop

/-! Names and values. -/

inductive Name : Sql → Prop
  | mk (name : String) : Name [.name name]

inductive Column : Sql → Prop
  | bare (name : String) : Column [.name name]
  | qualified (table name : String) : Column [.name table, .text ".", .name name]

/-- A table, which may be given a label. -/
inductive Table : Sql → Prop
  | plain (name : String) : Table [.name name]
  | labelled (name label : String) : Table [.name name, .text " AS ", .name label]

inductive Placeholder : Sql → Prop
  | mk {name : String} (h : isToken name.toList = true) : Placeholder [.param name]

/-! Predicates. -/

/-- The left side of a predicate. -/
inductive Left (r : Rules) : Sql → Prop
  | column {sql : Sql} (h : Column sql) : Left r sql
  | call {text : String} (h : r.Call text) : Left r [.text text]

/-- The texts between a left side and the value that it is tested with. -/
def operatorTexts : List String :=
  Conditions.comparisonTexts ++ [" LIKE ", " NOT LIKE ", " ILIKE ", " NOT ILIKE "]

inductive Predicate (r : Rules) : Sql → Prop
  | null {left : Sql} (negated : Bool) (hleft : Left r left) :
      Predicate r (left ++ [.text (if negated then " IS NOT NULL" else " IS NULL")])
  | tested {left v : Sql} {operator : String} (hleft : Left r left)
      (hoperator : operator ∈ operatorTexts) (hv : Placeholder v) :
      Predicate r (left ++ .text operator :: v)
  | members {left : Sql} {rows : List Sql} (negated : Bool) (hleft : Left r left)
      (hrows : ∀ row ∈ rows, Placeholder row) (hne : rows ≠ []) :
      Predicate r (left ++ .text (if negated then " NOT IN (" else " IN (") ::
        Sql.join ", " rows ++ [.text ")"])
  | range {left low high : Sql} (negated : Bool) (hleft : Left r left) (hlow : Placeholder low)
      (hhigh : Placeholder high) :
      Predicate r (Conditions.parenthesized
        (left ++ .text (if negated then " NOT BETWEEN " else " BETWEEN ") ::
          (low ++ .text " AND " :: high)))
  | columns {left right : Sql} (operator : ComparisonOperator) (hleft : Column left)
      (hright : Column right) : Predicate r (left ++ .text (" " ++ operator.text ++ " ") :: right)
  | group {rows : List Sql} (connective : Connective) (hrows : ∀ row ∈ rows, Predicate r row)
      (hne : rows ≠ []) :
      Predicate r (Conditions.parenthesized
        (Sql.join (" " ++ connective.text ++ " ") rows))

/-- Predicates that all have to hold. -/
inductive Conjunction (r : Rules) : Sql → Prop
  | mk {rows : List Sql} (hrows : ∀ row ∈ rows, Predicate r row) (hne : rows ≠ []) :
      Conjunction r (Sql.join " AND " rows)

/-! The clauses at the end. -/

inductive Group : Sql → Prop
  | mk {rows : List Sql} (hrows : ∀ row ∈ rows, Column row) (hne : rows ≠ []) :
      Group (Sql.join ", " rows)

/-- A literal with its rank. -/
inductive Ranked (r : Rules) : Sql → Prop
  | mk (v : Value) (rank : Nat) :
      Ranked r [.text "WHEN ", .literal (r.dialect.literalText v), .text (" THEN " ++ toString rank)]

inductive Literal (r : Rules) : Sql → Prop
  | mk (v : Value) : Literal r [.literal (r.dialect.literalText v)]

inductive OrderItem (r : Rules) : Sql → Prop
  | column {sql : Sql} (h : Column sql) : OrderItem r sql
  | directed {sql : Sql} {direction : String} (h : Column sql)
      (hdirection : direction = "ASC" ∨ direction = "DESC") :
      OrderItem r (sql ++ [.text (" " ++ direction)])
  | field {sql : Sql} {rows : List Sql} (h : Column sql) (hrows : ∀ row ∈ rows, Literal r row)
      (hne : rows ≠ []) :
      OrderItem r (.text "FIELD(" :: sql ++ .text ", " :: Sql.join ", " rows ++ [.text ")"])
  | ranked {sql : Sql} {rows : List Sql} (h : Column sql) (hrows : ∀ row ∈ rows, Ranked r row)
      (hne : rows ≠ []) :
      OrderItem r (.text "CASE " :: sql ++ .text " " :: Sql.join " " rows ++ [.text " ELSE 0 END"])
  | random : OrderItem r [.fragment r.dialect.randomFunction]

inductive Order (r : Rules) : Sql → Prop
  | mk {rows : List Sql} (hrows : ∀ row ∈ rows, OrderItem r row) (hne : rows = [] → r.EmptyOrder) :
      Order r (Sql.join ", " rows)

inductive Limit : Sql → Prop
  | size (size : Nat) : Limit [.text ("LIMIT " ++ toString size)]
  | offset (size offset : Nat) :
      Limit [.text ("LIMIT " ++ toString size ++ " OFFSET " ++ toString offset)]

/-- A part that may be left out. -/
inductive Optional (P : Sql → Prop) : List Sql → Prop
  | absent : Optional P []
  | present {sql : Sql} (h : P sql) : Optional P [sql]

/-- A body behind its keyword. -/
inductive Keyworded (keyword : String) (P : Sql → Prop) : Sql → Prop
  | mk {sql : Sql} (h : P sql) : Keyworded keyword P (.text keyword :: sql)

/-- The clauses that may stand before a limit, in their order. -/
inductive Unlimited (r : Rules) : List Sql → Prop
  | mk {filter groupBy having orderBy : List Sql}
      (hfilter : Optional (Keyworded "WHERE " (Conjunction r)) filter)
      (hgroup : Optional (Keyworded "GROUP BY " Group) groupBy)
      (hhaving : Optional (Keyworded "HAVING " (Conjunction r)) having)
      (horder : Optional (Keyworded "ORDER BY " (Order r)) orderBy) :
      Unlimited r (filter ++ groupBy ++ having ++ orderBy)

theorem Unlimited.nil {r : Rules} : Unlimited r [] := .mk .absent .absent .absent .absent

/-- The clauses behind the tables of a statement. -/
inductive Clauses (r : Rules) : List Sql → Prop
  | mk {rows limit : List Sql} (hrows : Unlimited r rows) (hlimit : Optional Limit limit) :
      Clauses r (rows ++ limit)

/-- What stands before the clauses, and the clauses. -/
inductive Closed (r : Rules) (P : Sql → Prop) : Sql → Prop
  | plain {sql : Sql} (h : P sql) : Closed r P sql
  | clauses {sql : Sql} {rows : List Sql} (h : P sql) (hrows : Clauses r rows) (hne : rows ≠ []) :
      Closed r P (sql ++ .text " " :: Sql.join " " rows)

/-! Queries. -/

inductive Equality : Sql → Prop
  | mk {left right : Sql} (hleft : Column left) (hright : Column right) :
      Equality (left ++ .text " = " :: right)

inductive Relation : Sql → Prop
  | names {rows : List Sql} (hrows : ∀ row ∈ rows, Name row) (hne : rows ≠ []) :
      Relation (.text "USING (" :: Sql.join ", " rows ++ [.text ")"])
  | equalities {rows : List Sql} (hrows : ∀ row ∈ rows, Equality row) (hne : rows ≠ []) :
      Relation (.text "ON " :: Sql.join " AND " rows)

inductive Join : Sql → Prop
  | mk {table relation : Sql} (direction : JoinDirection) (htable : Table table)
      (hrelation : Relation relation) :
      Join (.text (direction.keyword ++ " JOIN ") :: table ++ .text " " :: relation)

/-- A head, a table and the tables that are joined to it. -/
inductive From (P : Sql → Prop) : Sql → Prop
  | table {head table : Sql} (hhead : P head) (htable : Table table) :
      From P (head ++ .text " FROM " :: table)
  | joined {head table : Sql} {rows : List Sql} (hhead : P head) (htable : Table table)
      (hrows : ∀ row ∈ rows, Join row) (hne : rows ≠ []) :
      From P (head ++ .text " FROM " :: table ++ .text " " :: Sql.join " " rows)

/-- A query with a head. -/
abbrev Query (r : Rules) (P : Sql → Prop) : Sql → Prop := Closed r (From P)

/-- What a selection selects. -/
inductive Item : Sql → Prop
  | everything : Item [.text "*"]
  | all (table : String) : Item [.name table, .text ".*"]
  | column {sql : Sql} (h : Column sql) : Item sql
  | labelled {sql : Sql} (h : Column sql) (label : String) :
      Item (sql ++ [.text " AS ", .name label])

inductive SelectHead : Sql → Prop
  | mk {rows : List Sql} (hrows : ∀ row ∈ rows, Item row) (hne : rows ≠ []) :
      SelectHead (.text "SELECT " :: Sql.join ", " rows)

inductive HasHead : Sql → Prop
  | mk : HasHead [.text "SELECT 1"]

inductive Argument : Sql → Prop
  | everything : Argument [.text "*"]
  | column {sql : Sql} (h : Column sql) : Argument sql

inductive AggregateHead : Sql → Prop
  | mk {sql : Sql} (f : AggregateFunction) (h : Argument sql) :
      AggregateHead (.text ("SELECT " ++ f.name ++ "(") :: sql ++ [.text ")"])

/-! Statements that write. -/

/-- A column in which texts are replaced, one replacement around the other. -/
inductive Replaced : Sql → Prop
  | column {sql : Sql} (h : Column sql) : Replaced sql
  | replace {sql old new : Sql} (h : Replaced sql) (hold : Placeholder old)
      (hnew : Placeholder new) :
      Replaced (.text "REPLACE(" :: sql ++ .text ", " :: old ++ .text ", " :: new ++ [.text ")"])

inductive Assignment : Sql → Prop
  | value {column v : Sql} (hcolumn : Column column) (hv : Placeholder v) :
      Assignment (column ++ .text " = " :: v)
  | arithmetic {column v : Sql} (operator : UpdateOperator) (hcolumn : Column column)
      (hv : Placeholder v) :
      Assignment (column ++ .text " = " :: column ++ .text (" " ++ operator.text ++ " ") :: v)
  | replaced {column sql : Sql} (hcolumn : Column column) (h : Replaced sql) :
      Assignment (column ++ .text " = " :: sql)

inductive UpdateHead : Sql → Prop
  | mk {rows : List Sql} (table : String) (hrows : ∀ row ∈ rows, Assignment row) (hne : rows ≠ []) :
      UpdateHead (.text "UPDATE " :: [.name table] ++ .text " SET " :: Sql.join ", " rows)

inductive DeleteHead : Sql → Prop
  | mk (table : String) : DeleteHead [.text "DELETE FROM ", .name table]

/-- The values of a row. -/
inductive RowTuple : Sql → Prop
  | mk {rows : List Sql} (hrows : ∀ row ∈ rows, Placeholder row) (hne : rows ≠ []) :
      RowTuple (Conditions.parenthesized (Sql.join ", " rows))

/-- The statements that a verb compiles to. -/
inductive Statement (r : Rules) : Verb → Sql → Prop
  | selection {verb : Verb} {sql : Sql} (hverb : verb ∈ [Verb.select, .get, .rand])
      (h : Query r SelectHead sql) : Statement r verb sql
  | has {sql : Sql} (h : Query r HasHead sql) :
      Statement r .has (.text "SELECT EXISTS(" :: sql ++ [.text ")"])
  | aggregate {sql : Sql} (h : Query r AggregateHead sql) : Statement r .aggregate sql
  | update {verb : Verb} {sql : Sql} (hverb : verb ∈ [Verb.update, .replace])
      (h : Closed r UpdateHead sql) : Statement r verb sql
  | delete {sql : Sql} (h : Closed r DeleteHead sql) : Statement r .delete sql
  | insert {columns rows : List Sql} (table : String) (hcolumns : ∀ row ∈ columns, Column row)
      (hne : columns ≠ []) (hrows : ∀ row ∈ rows, RowTuple row) (hsome : rows ≠ []) :
      Statement r .insert
        (.text "INSERT INTO " :: [.name table] ++ .text " (" :: Sql.join ", " columns ++
          .text ") VALUES " :: Sql.join ", " rows)

/-- A text derives from a kind of rows if it is the text of one of them. -/
def Derived (P : Sql → Prop) (text : String) : Prop := ∃ sql, P sql ∧ sql.text = text

end QueryLoom.Grammar
