import QueryLoom.Text.Digit

/-!
The words of a command line and what they look like: options, values, and the separator after which
every word is a value. Long options may be abbreviated as long as the abbreviation is unique, and
may carry their value behind an equals sign.
-/

namespace QueryLoom.CommandLine

inductive Flag
  | help | columns | wheres | join | data | dialect | tablePrefix | inline | sqlite | verbose
deriving DecidableEq, Repr

namespace Flag

def all : List Flag :=
  [.help, .columns, .wheres, .join, .data, .dialect, .tablePrefix, .inline, .sqlite, .verbose]

def longName : Flag → String
  | .help => "--help"
  | .columns => "--columns"
  | .wheres => "--where"
  | .join => "--join"
  | .data => "--data"
  | .dialect => "--dialect"
  | .tablePrefix => "--prefix"
  | .inline => "--inline"
  | .sqlite => "--sqlite"
  | .verbose => "--verbose"

def letter? : Flag → Option Char
  | .help => some 'h'
  | .verbose => some 'v'
  | _ => none

def takesValue : Flag → Bool
  | .help | .inline | .verbose => false
  | _ => true

def ofLetter? (c : Char) : Option Flag := all.find? fun f => f.letter? == some c

def ofWord? (cs : List Char) : Option Flag :=
  match cs with
  | ['-', c] => ofLetter? c
  | cs => all.find? fun f => f.longName.toList == cs

/-- The options whose long names begin with a word. -/
def abbreviated (cs : List Char) : List Flag :=
  all.filter fun f => cs.isPrefixOf f.longName.toList

end Flag

inductive Word
  | value (text : String)
  | separator
  /-- An option, possibly with the text behind its equals sign. -/
  | option (flag : Flag) (attached : Option String)
  /-- The letter of an option with more text directly behind it. -/
  | letters (flag : Flag) (more : List Char)
  /-- A word that looks like an option but is none. -/
  | unknown
deriving DecidableEq, Repr

namespace Word

/-- Whether a word is a negative number: digits, perhaps with a point before some of them. A newline
may follow. -/
def isNegativeNumber (cs : List Char) : Bool :=
  match cs with
  | '-' :: rest =>
      let body := if rest.getLast? == some '\n' then rest.dropLast else rest
      let whole := body.takeWhile fun c => (Text.decimalDigit? c).isSome
      match body.drop whole.length with
      | [] => !whole.isEmpty
      | '.' :: places => !places.isEmpty && places.all fun c => (Text.decimalDigit? c).isSome
      | _ => false
  | _ => false

/-- A word and its part before and behind the first equals sign. -/
def splitEquals (cs : List Char) : List Char × Option String :=
  match cs.dropWhile (· != '=') with
  | _ :: behind => (cs.takeWhile (· != '='), some (String.ofList behind))
  | [] => (cs, none)

/-- The readings of a word as an abbreviation, or as a letter with more behind it. -/
def readings (cs : List Char) : List Word :=
  match cs with
  | '-' :: '-' :: _ =>
      let (name, attached) := splitEquals cs
      (Flag.abbreviated name).map (option · attached)
  | '-' :: c :: more => ((Flag.ofLetter? c).map (letters · more)).toList
  | _ => []

/-- What a word looks like; `none` if it abbreviates several options. -/
def classify? (text : String) : Option Word :=
  let cs := text.toList
  match cs with
  | '-' :: _ :: _ =>
      match Flag.ofWord? cs with
      | some flag => some (option flag none)
      | none =>
          let (name, attached) := splitEquals cs
          match attached, Flag.ofWord? name with
          | some _, some flag => some (option flag attached)
          | _, _ =>
              match readings cs with
              | [reading] => some reading
              | _ :: _ :: _ => none
              | [] =>
                  if isNegativeNumber cs || cs.contains ' ' then some (value text) else some unknown
  | _ => some (value text)

/-- What the words of a command line look like. Only the first separator is one. -/
def classifyAll? : List String → Option (List Word)
  | [] => some []
  | text :: rest =>
      if text == "--" then some (separator :: rest.map value)
      else do
        let word ← classify? text
        return word :: (← classifyAll? rest)

end Word

end QueryLoom.CommandLine
