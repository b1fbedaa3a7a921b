import QueryLoom.Proofs.Conditions.Tree
import QueryLoom.Proofs.Meaning.Atoms

/-!
What trees of conditions mean. The entries of a dictionary are joined by the connective of the group
that it makes up; the dictionaries of a list under a logical key are groups of that key, joined by the
connective around it; several patterns are joined by OR or by the connective that is named. The
leaves of the formula are the conditions that become predicates.
-/

namespace QueryLoom

open Parsing

/-! Calls in keys. -/

/-- Whether a key calls no function, or one function in a single call. -/
def Value.isCalledOnce : Value → Bool
  | .str text =>
      match Key.conditionKey text with
      | .ok parsed => !parsed.isFunction || isSingleCall parsed.column.toList
      | .error _ => true
  | _ => true

namespace Value

mutual

/-- Whether all calls in the keys of a value are single ones. -/
def singleCalls : Value → Bool
  | .list items => singleCallsItems items
  | .dict entries => singleCallsEntries entries
  | _ => true
termination_by structural v => v

def singleCallsItems : List Value → Bool
  | [] => true
  | v :: rest => singleCalls v && singleCallsItems rest
termination_by structural vs => vs

def singleCallsEntries : List (Value × Value) → Bool
  | [] => true
  | (key, v) :: rest => isCalledOnce key && (singleCalls v && singleCallsEntries rest)
termination_by structural es => es

end

end Value

namespace Conditions

/-! The meaning of a tree. -/

/-- A condition that becomes a predicate. -/
inductive Leaf
  | predicate (key v : Value)
  | columns (v : Value)

/-- The predicate of a leaf. -/
def Leaf.compile (p : Place) : Leaf → Compile Sql
  | .predicate key v => p.predicate key v
  | .columns v => p.columns v

/-- The operator of a key. -/
def keyOperator : Value → Option ConditionOperator
  | .str text =>
      match Key.conditionKey text with
      | .ok parsed => parsed.operator
      | .error _ => none
  | _ => none

/-- The connective of patterns, and the patterns: OR unless another one is named. -/
def patternGroup : Value → Connective × Value
  | .dict [(.str name, patterns)] =>
      match Connective.ofText? name with
      | some connective => (connective, patterns)
      | none => (.or, .dict [(.str name, patterns)])
  | v => (.or, v)

/-- What a predicate means: several patterns are as many conditions. -/
def predicateMeaning (key v : Value) : Formula Leaf :=
  if testsPatterns (keyOperator key) then
    .all (patternGroup v).1
      ((patternItems (patternGroup v).2).map fun pattern => .atom (.predicate key pattern))
  else .atom (.predicate key v)

/-- What a list of comparisons of columns means. -/
def columnMeanings (items : List Value) : List (Formula Leaf) :=
  items.map fun v => .atom (.columns v)

mutual

/-- What the entries of a dictionary mean, one by one, under the connective around them. -/
def entryMeanings (outer : Connective) : List (Value × Value) → List (Formula Leaf)
  | [] => []
  | (key, v) :: rest =>
      (match keyRole key with
      | .logical inner => groupMeaning outer inner v
      | .position => .atom (.columns v)
      | .predicate => predicateMeaning key v) :: entryMeanings outer rest
termination_by structural es => es

/-- What stands under a logical key. -/
def groupMeaning (outer inner : Connective) : Value → Formula Leaf
  | .dict es => .all inner (entryMeanings inner es)
  | .list items =>
      if !items.isEmpty && items.all Value.isDict then .all outer (dictMeanings inner items)
      else .all inner (columnMeanings items)
  | v => .atom (.columns v)
termination_by structural v => v

/-- What the dictionaries of a list mean, one by one. -/
def dictMeanings (inner : Connective) : List Value → List (Formula Leaf)
  | [] => []
  | .dict es :: rest => .all inner (entryMeanings inner es) :: dictMeanings inner rest
  | _ :: rest => dictMeanings inner rest
termination_by structural vs => vs

end

/-- What the condition for one entry of a dictionary means. -/
def entryMeaning (outer : Connective) (key v : Value) : Formula Leaf :=
  match keyRole key with
  | .logical inner => groupMeaning outer inner v
  | .position => .atom (.columns v)
  | .predicate => predicateMeaning key v

theorem entryMeanings_cons (outer : Connective) (key v : Value) (rest : List (Value × Value)) :
    entryMeanings outer ((key, v) :: rest) =
      entryMeaning outer key v :: entryMeanings outer rest := rfl

/-- What conditions mean whose members are joined by a connective. -/
def meaning (connective : Connective) : Value → Formula Leaf
  | .dict es => .all connective (entryMeanings connective es)
  | .list items => .all connective (columnMeanings items)
  | v => .atom (.columns v)

/-! Leaves and their atoms. -/

/-- The leaves are compiled one after the other, and the predicate of each is a single atom. -/
inductive Emits (backslash : Bool) (p : Place) :
    Parameters → List (Leaf × Atom) → Parameters → Prop
  | nil (s : Parameters) : Emits backslash p s [] s
  | cons {leaf : Leaf} {a : Atom} {sql : Sql} {s u t : Parameters} {rest : List (Leaf × Atom)}
      (h : (leaf.compile p).Yields s sql u) (ha : parseText backslash sql.text = some (.atom a))
      (hrest : Emits backslash p u rest t) : Emits backslash p s ((leaf, a) :: rest) t

theorem Emits.append {backslash : Bool} {p : Place} {s u t : Parameters}
    {first rest : List (Leaf × Atom)} (hfirst : Emits backslash p s first u)
    (hrest : Emits backslash p u rest t) : Emits backslash p s (first ++ rest) t := by
  induction hfirst with
  | nil => exact hrest
  | cons h ha _ ih => exact .cons h ha (ih hrest)

/-- Tokens are read as an operand with a meaning: as its formula, each leaf replaced by the atom that
it is compiled to. -/
def Means (backslash : Bool) (p : Place) (s : Parameters) (ts : List Token) (m : Formula Leaf)
    (t : Parameters) : Prop :=
  ∃ labelled : Formula (Leaf × Atom), labelled.map Prod.fst = m ∧
    Emits backslash p s labelled.atoms t ∧ Operand ts (labelled.map Prod.snd)

/-- Rows of tokens are read as operands with meanings, one after the other. -/
inductive MeansAll (backslash : Bool) (p : Place) :
    Parameters → List (List Token) → List (Formula Leaf) → Parameters → Prop
  | nil (s : Parameters) : MeansAll backslash p s [] [] s
  | cons {s u t : Parameters} {ts : List Token} {m : Formula Leaf} {rows : List (List Token)}
      {ms : List (Formula Leaf)} (h : Means backslash p s ts m u)
      (hrest : MeansAll backslash p u rows ms t) :
      MeansAll backslash p s (ts :: rows) (m :: ms) t

section Composition

variable {backslash : Bool} {p : Place} {s t : Parameters} {rows : List (List Token)}
  {ms : List (Formula Leaf)}

theorem MeansAll.labelled (h : MeansAll backslash p s rows ms t) :
    ∃ fs : List (Formula (Leaf × Atom)), fs.map (Formula.map Prod.fst) = ms ∧
      Emits backslash p s (fs.flatMap Formula.atoms) t ∧
      List.Forall₂ Operand rows (fs.map (Formula.map Prod.snd)) := by
  induction h with
  | nil s => exact ⟨[], rfl, .nil s, .nil⟩
  | cons h _ ih =>
      obtain ⟨f, hmap, hemits, hoperand⟩ := h
      obtain ⟨fs, hmaps, hrest, hoperands⟩ := ih
      refine ⟨f :: fs, ?_, ?_, ?_⟩
      · rw [List.map_cons, hmap, hmaps]
      · rw [List.flatMap_cons]
        exact hemits.append hrest
      · exact .cons hoperand hoperands

/-- Operands with meanings under one connective mean the group of their meanings. -/
theorem MeansAll.joined (h : MeansAll backslash p s rows ms t) (hne : rows ≠ []) (c : Connective) :
    ∃ labelled : Formula (Leaf × Atom), labelled.map Prod.fst = .all c ms ∧
      Emits backslash p s labelled.atoms t ∧
      Operand (.symbol '(' :: Parsing.joined c rows ++ [.symbol ')']) (labelled.map Prod.snd) ∧
      parse (Parsing.joined c rows) = some (labelled.map Prod.snd) := by
  obtain ⟨fs, hmap, hemits, hoperands⟩ := h.labelled
  have hfs : fs.map (Formula.map Prod.snd) ≠ [] := by
    intro hnil
    rw [hnil] at hoperands
    cases hoperands
    exact hne rfl
  refine ⟨.all c fs, ?_, ?_, ?_, ?_⟩
  · rw [Formula.map_all, hmap]
  · rw [Formula.atoms_all]
    exact hemits
  · rw [Formula.map_all]
    exact operand_parenthesized hoperands hfs c
  · rw [Formula.map_all]
    exact parse_joined hoperands hfs c

theorem MeansAll.parenthesized (h : MeansAll backslash p s rows ms t) (hne : rows ≠ [])
    (c : Connective) :
    Means backslash p s (.symbol '(' :: Parsing.joined c rows ++ [.symbol ')']) (.all c ms) t := by
  obtain ⟨labelled, hmap, hemits, hoperand, _⟩ := h.joined hne c
  exact ⟨labelled, hmap, hemits, hoperand⟩

end Composition

end Conditions

end QueryLoom
