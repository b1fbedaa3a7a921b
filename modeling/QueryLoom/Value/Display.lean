import QueryLoom.Number.Reading
import QueryLoom.Number.Shortest
import QueryLoom.Text.Quoted
import QueryLoom.Value.Basic

/-!
How values are shown. `shown` writes a value so that its kind can be seen: texts are quoted,
decimals, dates and raw values look like constructor calls. `plain` is the bare text of a value, and
agrees with `shown` for everything that has no barer form. A whole number is written with no more digits
than it is read with; `hasText` tells the values whose texts hold no longer one.
-/

namespace QueryLoom.Value

/-- Items between two brackets, separated by commas. -/
def bracketed (left right : String) (items : List String) : String :=
  left ++ ", ".intercalate items ++ right

mutual

/-- The value as messages show it. -/
def shown : Value → String
  | .null => "None"
  | .bool b => if b then "True" else "False"
  | .int i => toString i
  | .float x => x.text
  | .str s => Text.quoted s
  | .list items => bracketed "[" "]" (shownItems items)
  | .dict entries => bracketed "\x7b" "\x7d" (shownEntries entries)
  | .raw sql parameters =>
      bracketed "Raw(" ")"
        [Text.quoted sql, bracketed "\x7b" "\x7d" (shownEntries parameters)]
  | .decimal d => "Decimal('" ++ d.text ++ "')"
  | .bytes octets => Text.quotedOctets octets
  | .date d => d.constructorText
  | .moment m => m.constructorText
  | .clock c => c.constructorText
termination_by structural v => v

def shownItems : List Value → List String
  | [] => []
  | v :: rest => shown v :: shownItems rest
termination_by structural vs => vs

def shownEntries : List (Value × Value) → List String
  | [] => []
  | (k, v) :: rest => (shown k ++ ": " ++ shown v) :: shownEntries rest
termination_by structural es => es

end

/-- Whether a whole number is short enough to be written. -/
def isWritten (i : Int) : Bool := (Nat.toDigits 10 i.natAbs).length ≤ Reading.digitLimit

mutual

/-- Whether a value has a text, which a number that is too long to be written leaves it without. -/
def hasText : Value → Bool
  | .int i => isWritten i
  | .list items => itemsHaveText items
  | .dict entries => entriesHaveText entries
  | .raw _ parameters => entriesHaveText parameters
  | _ => true
termination_by structural v => v

def itemsHaveText : List Value → Bool
  | [] => true
  | v :: rest => hasText v && itemsHaveText rest
termination_by structural vs => vs

def entriesHaveText : List (Value × Value) → Bool
  | [] => true
  | (k, v) :: rest => hasText k && hasText v && entriesHaveText rest
termination_by structural es => es

end

/-- The bare text of a value. -/
def plain : Value → String
  | .str s => s
  | .decimal d => d.text
  | .date d => d.text
  | .moment m => m.text " "
  | .clock c => c.text
  | v => shown v

end QueryLoom.Value
