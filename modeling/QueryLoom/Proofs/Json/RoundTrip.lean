import QueryLoom.Proofs.Json.Strings
import QueryLoom.Proofs.Statement.RawFree
import QueryLoom.Proofs.Values.Texts

/-!
JSON values that are written and read. The text of a value in one line is read back as the value,
before any rest that does not go on with a number: items and entries take one step of the reader each,
and the names of a dictionary are read in their order and once each.
-/

namespace QueryLoom

/-- The values that JSON has a form for: their whole numbers have at most 4300 digits, and the keys of
their dictionaries are texts. -/
inductive Value.IsJson : Value → Prop
  | null : IsJson .null
  | bool (b : Bool) : IsJson (.bool b)
  | int (i : Int) (h : (Nat.toDigits 10 i.natAbs).length ≤ 4300) : IsJson (.int i)
  | str (s : String) : IsJson (.str s)
  | list (items : List Value) (h : ∀ v ∈ items, IsJson v) : IsJson (.list items)
  | dict (entries : List (String × Value)) (hkeys : (entries.map Prod.fst).Nodup)
      (h : ∀ entry ∈ entries, IsJson entry.2) :
      IsJson (.dict (entries.map fun (name, v) => (.str name, v)))

namespace Json

/-- What may come after a value: the end, or what separates and closes containers. -/
def Stops (rest : List Char) : Prop := ∀ c ∈ rest.head?, c = ',' ∨ c = ']' ∨ c = '\x7d'

theorem stops_nil : Stops [] := nofun

theorem stops_cons {c : Char} (rest : List Char) (h : c = ',' ∨ c = ']' ∨ c = '\x7d') :
    Stops (c :: rest) := by
  rintro _ ⟨⟩
  exact h

/-! Numbers. -/

section Numbers

variable {n : Nat} {rest : List Char}

theorem isDigit_of_mem {c : Char} (h : c ∈ Nat.toDigits 10 n) : c.isDigit = true :=
  Nat.isDigit_of_mem_toDigits (by decide) (by decide) h

theorem Stops.not_digit (h : Stops rest) : ∀ c ∈ rest.head?, c.isDigit = false := by
  intro c hc
  rcases h c hc with rfl | rfl | rfl <;> rfl

theorem Stops.placesDigits (h : Stops rest) : placesDigits rest = [] := by
  unfold Json.placesDigits
  split
  · next more =>
      rcases h '.' rfl with hc | hc | hc <;> cases hc
  · rfl

theorem Stops.powerDigits (h : Stops rest) : powerDigits rest = [] := by
  unfold Json.powerDigits
  split
  · next e more =>
      rcases h e rfl with rfl | rfl | rfl <;> rfl
  · rfl

/-- The first digit of a number is a zero only if the number is zero. -/
theorem head_toDigits (hn : n ≠ 0) : (Nat.toDigits 10 n).head? ≠ some '0' := by
  induction n using Nat.strongRecOn with
  | _ n ih =>
      rw [Nat.toDigits_eq_if (by decide)]
      split_ifs with hlt
      · have hall : ∀ m : Fin 10, m.val ≠ 0 → m.val.digitChar ≠ '0' := by decide
        simpa using hall ⟨n, hlt⟩ hn
      · have hhead := ih (n / 10) (by omega) (by omega)
        obtain ⟨d, more, hdigits⟩ := List.exists_cons_of_ne_nil
          (Nat.toDigits_ne_nil (b := 10) (n := n / 10))
        rw [hdigits] at hhead ⊢
        exact hhead

/-- The digits of a number are all read, and no more. -/
theorem wholeDigits_toDigits (h : Stops rest) :
    wholeDigits (Nat.toDigits 10 n ++ rest) = Nat.toDigits 10 n := by
  by_cases hn : n = 0
  · subst hn
    rfl
  · have hrest : rest.takeWhile Char.isDigit = [] := by
      cases rest with
      | nil => rfl
      | cons c more => simp [h.not_digit c rfl]
    have htake : (Nat.toDigits 10 n ++ rest).takeWhile Char.isDigit = Nat.toDigits 10 n := by
      rw [List.takeWhile_append_of_pos fun c hc => isDigit_of_mem hc, hrest, List.append_nil]
    unfold wholeDigits
    split
    · next more heq =>
        obtain ⟨d, ds, hdigits⟩ := List.exists_cons_of_ne_nil (Nat.toDigits_ne_nil (b := 10) (n := n))
        have hhead := head_toDigits hn
        rw [hdigits, List.cons_append] at heq
        rw [hdigits, (List.cons.inj heq).1] at hhead
        exact absurd rfl hhead
    · exact htake

theorem digitsValue_toDigits : Reading.digitsValue (Nat.toDigits 10 n) = n := by
  have hvalue := Nat.ofDigitChars_ten_toDigits (n := n)
  rw [Nat.ofDigitChars_eq_foldl] at hvalue
  exact hvalue

theorem minus_not_in_toDigits : '-' ∉ Nat.toDigits 10 n := fun h => by
  cases isDigit_of_mem h

/-- The digits of a number are read after its sign. -/
theorem number?_digits (negative : Bool) (hlength : (Nat.toDigits 10 n).length ≤ 4300)
    (h : Stops rest) :
    number? ((if negative then ['-'] else []) ++ (Nat.toDigits 10 n ++ rest)) =
      .ok (.int (if negative then -n else n), rest) := by
  have hne : (Nat.toDigits 10 n).isEmpty = false := by
    rw [List.isEmpty_eq_false_iff]
    exact Nat.toDigits_ne_nil
  have hlimit : ¬Reading.digitLimit < (Nat.toDigits 10 n).length := Nat.not_lt.mpr hlength
  unfold number?
  split
  next sign unsigned hsplit =>
    have hsign : (negative, Nat.toDigits 10 n ++ rest) = (sign, unsigned) := by
      rw [← hsplit]
      cases negative with
      | true => rfl
      | false =>
          obtain ⟨d, ds, hdigits⟩ := List.exists_cons_of_ne_nil
            (Nat.toDigits_ne_nil (b := 10) (n := n))
          split
          · next more heq =>
              have hminus : '-' ∈ Nat.toDigits 10 n := by
                rw [hdigits] at heq ⊢
                rw [← (List.cons.inj heq).1]
                exact List.mem_cons_self
              exact absurd hminus minus_not_in_toDigits
          · rfl
    cases hsign
    simp only [wholeDigits_toDigits h, List.drop_left, h.placesDigits, List.length_nil,
      List.drop_zero, h.powerDigits, hne, List.isEmpty_nil, Bool.and_self, if_true,
      if_neg hlimit, digitsValue_toDigits, Bool.false_eq_true, if_false]

theorem toList_int (i : Int) :
    (toString i).toList = (if decide (i < 0) then ['-'] else []) ++ Nat.toDigits 10 i.natAbs := by
  cases i with
  | ofNat n =>
      change (toString n).toList = Nat.toDigits 10 n
      rw [Nat.toString_eq_ofList_toDigits, String.toList_ofList]
  | negSucc n =>
      have htext : (toString (Int.negSucc n)).toList = '-' :: (toString (n + 1)).toList := by
        simp [toString, Int.repr, Nat.succ_eq_add_one]
      rw [htext, Nat.toString_eq_ofList_toDigits, String.toList_ofList, Int.natAbs_negSucc,
        decide_eq_true (Int.negSucc_lt_zero n)]
      rfl

theorem number?_int {i : Int} (hlength : (Nat.toDigits 10 i.natAbs).length ≤ 4300)
    (h : Stops rest) : number? ((toString i).toList ++ rest) = .ok (.int i, rest) := by
  rw [toList_int, List.append_assoc, number?_digits _ hlength h]
  congr 3
  simp only [decide_eq_true_eq]
  split_ifs <;> omega

theorem word?_eq_none {cs : List Char} (h : ∀ w ∈ words, ¬w.1.toList <+: cs) :
    word? cs = none := by
  unfold word?
  rw [List.findSome?_eq_none_iff]
  rintro ⟨w, v⟩ hw
  refine if_neg fun heq => h _ hw ?_
  rw [← beq_iff_eq.mp heq]
  exact List.take_prefix _ _

/-- No word begins with a digit, with or without a minus before it. -/
theorem word?_digit {d : Char} (hd : d.isDigit = true) (negative : Bool) (more : List Char) :
    word? ((if negative then ['-'] else []) ++ d :: more) = none := by
  have hne : ∀ c : Char, c.isDigit = false → c ≠ d := by
    rintro c hc rfl
    rw [hd] at hc
    cases hc
  refine word?_eq_none ?_
  cases negative with
  | false =>
      simp [words, hne 'n' rfl, hne 't' rfl, hne 'f' rfl, hne 'N' rfl, hne 'I' rfl, hne '-' rfl]
  | true => simp [words, hne 'I' rfl]

theorem word?_int (i : Int) (rest : List Char) : word? ((toString i).toList ++ rest) = none := by
  obtain ⟨d, more, hdigits⟩ := List.exists_cons_of_ne_nil
    (Nat.toDigits_ne_nil (b := 10) (n := i.natAbs))
  have hd : d.isDigit = true := isDigit_of_mem (hdigits ▸ List.mem_cons_self)
  rw [toList_int, hdigits, List.append_assoc]
  exact word?_digit hd _ _

end Numbers

end Json

/-! Values. -/

namespace Value

mutual

/-- How many containers stand inside one another in a value. -/
def nesting : Value → Nat
  | .list items => itemsNesting items + 1
  | .dict entries => entriesNesting entries + 1
  | _ => 0
termination_by structural v => v

def itemsNesting : List Value → Nat
  | [] => 0
  | v :: rest => max (nesting v) (itemsNesting rest)
termination_by structural vs => vs

def entriesNesting : List (Value × Value) → Nat
  | [] => 0
  | (_, v) :: rest => max (nesting v) (entriesNesting rest)
termination_by structural es => es

end

end Value

namespace Json

/-- What is read as a dictionary stays one. -/
def plain : Hook := fun entries => .ok (.dict entries)

/-- A text that no blank, no end of a list and no byte order mark begins. -/
def Opens (cs : List Char) : Prop :=
  ∃ c more, cs = c :: more ∧ isJsonBlank c = false ∧ c ≠ ']' ∧ c ≠ byteOrderMark

theorem Opens.append {cs : List Char} (h : Opens cs) (rest : List Char) : Opens (cs ++ rest) := by
  obtain ⟨c, more, rfl, hc⟩ := h
  exact ⟨c, more ++ rest, rfl, hc⟩

theorem skipBlanks_cons {c : Char} (rest : List Char) (h : isJsonBlank c = false) :
    skipBlanks (c :: rest) = c :: rest := by
  rw [skipBlanks, List.dropWhile_cons_of_neg (by rw [h]; exact Bool.false_ne_true)]

theorem Opens.skipBlanks {cs : List Char} (h : Opens cs) : skipBlanks cs = cs := by
  obtain ⟨c, more, rfl, hc, -⟩ := h
  exact skipBlanks_cons more hc

/-- A text is what a value is written as, and it is read back as the value wherever its containers may
be entered. Blanks and the end of a list do not begin it. -/
structure Encodes (v : Value) (text : String) : Prop where
  written : ∀ depth, valueAt .line depth v = .ok text
  opens : Opens text.toList
  read : ∀ {fuel nesting rest}, text.toList.length ≤ fuel → v.nesting ≤ nesting → Stops rest →
    value plain fuel nesting (text.toList ++ rest) = .ok (v, rest)

theorem encodes_null : Encodes .null "null" where
  written _ := rfl
  opens := ⟨'n', _, rfl, rfl, by decide⟩
  read {fuel nesting rest} hfuel hnesting hrest := by
    obtain ⟨fuel, rfl⟩ := Nat.exists_eq_add_of_le' hfuel
    rfl

theorem encodes_bool (b : Bool) : Encodes (.bool b) (if b then "true" else "false") where
  written _ := rfl
  opens := by
    cases b with
    | true => exact ⟨'t', _, rfl, rfl, by decide⟩
    | false => exact ⟨'f', _, rfl, rfl, by decide⟩
  read {fuel nesting rest} hfuel hnesting hrest := by
    cases b with
    | true =>
        obtain ⟨fuel, rfl⟩ := Nat.exists_eq_add_of_le' hfuel
        rfl
    | false =>
        obtain ⟨fuel, rfl⟩ := Nat.exists_eq_add_of_le' hfuel
        rfl

theorem encodes_str (s : String) : Encodes (.str s) (string s) where
  written _ := rfl
  opens := ⟨'"', _, toList_string s, rfl, by decide⟩
  read {fuel nesting rest} hfuel hnesting hrest := by
    rw [toList_string] at hfuel ⊢
    obtain ⟨fuel, rfl⟩ := Nat.exists_eq_add_of_le' hfuel
    have hstring := string?_escaped ('"' :: (escaped s.toList ++ ['"']) ++ rest) s rest
    change string? ('"' :: (escaped s.toList ++ ['"']) ++ rest)
      (escaped s.toList ++ ['"'] ++ rest) >>= (fun found => pure (Value.str found.1, found.2)) = _
    rw [List.append_assoc, List.singleton_append, hstring]
    rfl

/-- A value that is no string and no container is a word or a number. -/
theorem value_of_head {hook : Hook} {fuel nesting : Nat} {c : Char} {more : List Char}
    (hc : c ≠ '"' ∧ c ≠ '{' ∧ c ≠ '[') :
    value hook (fuel + 1) nesting (c :: more) =
      match word? (c :: more) with
      | some found => .ok found
      | none => number? (c :: more) := by
  obtain ⟨hquote, hbrace, hbracket⟩ := hc
  unfold value
  split
  · next heq => exact absurd (List.cons.inj heq).1 hquote
  · next heq => exact absurd (List.cons.inj heq).1 hbrace
  · next heq => exact absurd (List.cons.inj heq).1 hbracket
  · rfl

/-- What a whole number begins with. -/
def BeginsInt (c : Char) : Prop := c = '-' ∨ c.isDigit = true

theorem BeginsInt.ne {c d : Char} (h : BeginsInt c) (hminus : d ≠ '-') (hdigit : d.isDigit = false) :
    c ≠ d := by
  rintro rfl
  rcases h with h | h
  · exact hminus h
  · rw [hdigit] at h
    cases h

theorem BeginsInt.not_blank {c : Char} (h : BeginsInt c) : isJsonBlank c = false := by
  simp only [isJsonBlank, Bool.or_eq_false_iff, beq_eq_false_iff_ne]
  exact ⟨⟨⟨h.ne (by decide) rfl, h.ne (by decide) rfl⟩, h.ne (by decide) rfl⟩,
    h.ne (by decide) rfl⟩

theorem toList_int_cons (i : Int) :
    ∃ c more, (toString i).toList = c :: more ∧ BeginsInt c := by
  rw [toList_int]
  obtain ⟨d, more, hdigits⟩ := List.exists_cons_of_ne_nil
    (Nat.toDigits_ne_nil (b := 10) (n := i.natAbs))
  rw [hdigits]
  split_ifs
  · exact ⟨'-', _, rfl, .inl rfl⟩
  · exact ⟨d, more, rfl, .inr (isDigit_of_mem (hdigits ▸ List.mem_cons_self))⟩

theorem encodes_int {i : Int} (hlength : (Nat.toDigits 10 i.natAbs).length ≤ 4300) :
    Encodes (.int i) (toString i) where
  written _ := by
    have hwritten : Value.isWritten i = true := decide_eq_true hlength
    unfold valueAt integer
    rw [if_pos hwritten]
  opens := by
    obtain ⟨c, more, heq, hc⟩ := toList_int_cons i
    exact ⟨c, more, heq, hc.not_blank, hc.ne (by decide) rfl, hc.ne (by decide) rfl⟩
  read {fuel nesting rest} hfuel hnesting hrest := by
    have hnumber := number?_int hlength hrest
    have hword := word?_int i rest
    obtain ⟨c, more, heq, hc⟩ := toList_int_cons i
    rw [heq] at hfuel hnumber hword ⊢
    obtain ⟨fuel, rfl⟩ := Nat.exists_eq_add_of_le' hfuel
    rw [List.cons_append, List.length_cons, ← Nat.add_assoc, value_of_head
      ⟨hc.ne (by decide) rfl, hc.ne (by decide) rfl, hc.ne (by decide) rfl⟩, ← List.cons_append,
      hword]
    exact hnumber

/-! Containers. -/

/-- Texts with what stands between them in one line. -/
def joined (texts : List String) : List Char := (", ".intercalate texts).toList

theorem joined_singleton (text : String) : joined [text] = text.toList := by
  rw [joined, String.intercalate_singleton]

theorem joined_cons_cons (first second : String) (rest : List String) :
    joined (first :: second :: rest) =
      first.toList ++ ',' :: ' ' :: joined (second :: rest) := by
  rw [joined, String.intercalate_cons_cons, String.toList_append, String.toList_append,
    List.append_assoc]
  rfl

theorem opens_joined {text : String} (h : Opens text.toList) (rest : List String) :
    Opens (joined (text :: rest)) := by
  cases rest with
  | nil => rwa [joined_singleton]
  | cons second rest =>
      rw [joined_cons_cons]
      exact h.append _

theorem toList_container {texts : List String} (hne : texts ≠ []) (depth : Nat)
    (left right : String) :
    (Layout.line.container depth left right texts).toList =
      left.toList ++ (joined texts ++ right.toList) := by
  have hempty : texts.isEmpty = false := List.isEmpty_eq_false_iff.mpr hne
  simp [Layout.container, hempty, Layout.newline, Layout.line, joined]

/-- The items of a list take one step each. -/
theorem items_joined {items : List Value} {texts : List String}
    (h : List.Forall₂ Encodes items texts) (hne : texts ≠ []) (fuel : Nat) (rest : List Char)
    (hfuel : (joined texts).length < fuel) {nesting : Nat}
    (hnesting : Value.itemsNesting items ≤ nesting) :
    Json.items plain fuel nesting (joined texts ++ ']' :: rest) = .ok (items, rest) := by
  induction h generalizing fuel with
  | nil => exact absurd rfl hne
  | @cons v text items texts hfirst hrest ih =>
      obtain ⟨fuel, rfl⟩ := Nat.exists_eq_add_one_of_ne_zero (Nat.ne_zero_of_lt hfuel)
      obtain ⟨hdeep, hdeeper⟩ := Nat.max_le.mp hnesting
      cases hrest with
      | nil =>
          rw [joined_singleton] at hfuel ⊢
          have hvalue :=
            hfirst.read (Nat.le_of_lt_succ hfuel) hdeep (stops_cons rest (.inr (.inl rfl)))
          unfold Json.items
          rw [hvalue]
          rfl
      | @cons w second items texts hsecond hmore =>
          have hopens := (opens_joined hsecond.opens texts).append (']' :: rest)
          rw [joined_cons_cons, List.length_append, List.length_cons, List.length_cons] at hfuel
          rw [joined_cons_cons, List.append_assoc, List.cons_append, List.cons_append]
          have hvalue : Json.value plain fuel nesting
              (text.toList ++ ',' :: ' ' :: (joined (second :: texts) ++ ']' :: rest)) =
              .ok (v, ',' :: ' ' :: (joined (second :: texts) ++ ']' :: rest)) :=
            hfirst.read (by omega) hdeep (stops_cons _ (.inl rfl))
          have hitems := ih (List.cons_ne_nil _ _) fuel (by omega) hdeeper
          unfold Json.items
          rw [hvalue]
          change Json.items plain fuel nesting (skipBlanks (joined (second :: texts) ++ ']' :: rest)) >>=
            (fun found => pure (v :: found.1, found.2)) = _
          rw [hopens.skipBlanks, hitems]
          rfl

theorem value_bracket {hook : Hook} {fuel nesting : Nat} {cs : List Char} (h : Opens cs) :
    value hook (fuel + 1) (nesting + 1) ('[' :: cs) = (do
      let (items, after) ← items hook fuel nesting cs
      return (.list items, after)) := by
  have hskip := h.skipBlanks
  obtain ⟨c, more, rfl, -, hbracket, -⟩ := h
  simp only [value, enter, hskip, Except.ok_bind]
  split
  · next heq => exact absurd (List.cons.inj heq).1 hbracket
  · rfl

/-- The items of a list are written one after another, at every depth. -/
theorem itemsAt_of_encodes {items : List Value} {texts : List String}
    (h : List.Forall₂ Encodes items texts) (depth : Nat) : itemsAt .line depth items = .ok texts := by
  induction h with
  | nil => rfl
  | cons hfirst _ ih =>
      unfold itemsAt
      rw [hfirst.written depth, ih]
      rfl

theorem encodes_list {items : List Value} {texts : List String}
    (h : List.Forall₂ Encodes items texts) :
    Encodes (.list items) (Layout.line.container 0 "[" "]" texts) := by
  have hwritten : ∀ depth, itemsAt .line depth items = .ok texts := itemsAt_of_encodes h
  cases h with
  | nil =>
      refine ⟨fun _ => rfl, ⟨'[', _, rfl, rfl, by decide⟩, ?_⟩
      intro fuel nesting rest hfuel hnesting _
      obtain ⟨fuel, rfl⟩ := Nat.exists_eq_add_of_le' hfuel
      obtain ⟨nesting, rfl⟩ := Nat.exists_eq_add_of_le' hnesting
      rfl
  | @cons v text items texts hfirst hrest =>
      have htext : ∀ depth, (Layout.line.container depth "[" "]" (text :: texts)).toList =
          '[' :: (joined (text :: texts) ++ [']']) :=
        fun depth => toList_container (List.cons_ne_nil _ _) depth "[" "]"
      refine ⟨fun depth => ?_, ⟨'[', _, htext 0, rfl, by decide⟩, ?_⟩
      · unfold valueAt
        rw [hwritten]
        rfl
      · intro fuel nesting rest hfuel hnesting _
        obtain ⟨nesting, rfl⟩ := Nat.exists_eq_add_one_of_ne_zero (Nat.ne_zero_of_lt hnesting)
        have hinner := Nat.le_of_succ_le_succ hnesting
        rw [htext, List.length_cons, List.length_append, List.length_singleton] at hfuel
        obtain ⟨fuel, rfl⟩ := Nat.exists_eq_add_of_le' (Nat.le_trans (Nat.le_add_left 1 _) hfuel)
        have hitems :=
          items_joined (.cons hfirst hrest) (List.cons_ne_nil _ _) fuel rest (by omega) hinner
        have hopens := (opens_joined hfirst.opens texts).append (']' :: rest)
        rw [htext, List.cons_append, List.append_assoc, List.singleton_append]
        rw [value_bracket hopens, hitems]
        rfl

/-- The text of an entry. -/
def entryText (name : String) (text : String) : String := string name ++ ": " ++ text

theorem toList_entryText (name text : String) (rest : List Char) :
    (entryText name text).toList ++ rest =
      '"' :: (escaped name.toList ++ '"' :: ':' :: ' ' :: (text.toList ++ rest)) := by
  simp [entryText, toList_string]

/-- The entries of a dictionary whose names are texts. -/
def named (entries : List (String × Value)) : Dict := entries.map fun (name, v) => (.str name, v)

/-- A name that was not read before is added at the end. -/
theorem insert_of_fresh {name : String} {v : Value} {before : List (String × Value)}
    (h : name ∉ before.map Prod.fst) :
    Assoc.insert (.str name) v (named before) = named (before ++ [(name, v)]) := by
  induction before with
  | nil => rfl
  | cons entry rest ih =>
      obtain ⟨first, w⟩ := entry
      simp only [List.map_cons, List.mem_cons, not_or] at h
      have hne : ¬(Value.str first == .str name) = true := by
        rw [Value.str_beq_str, beq_iff_eq]
        exact fun heq => h.1 heq.symm
      change Assoc.insert (.str name) v ((Value.str first, w) :: named rest) = _
      rw [Assoc.insert, if_neg hne, ih h.2]
      rfl

/-- A text is what an entry is written as. -/
def EncodesEntry (entry : String × Value) (text : String) : Prop :=
  ∃ value, Encodes entry.2 value ∧ text = entryText entry.1 value

/-- What comes of the entries before a text once the last of them was read. -/
def entriesAfter (hook : Hook) (fuel nesting : Nat) (before : Dict) (rest : List Char) :
    Except Stop (Dict × List Char) :=
  match skipBlanks rest with
  | '\x7d' :: after => .ok (before, after)
  | ',' :: more => Json.entries hook fuel nesting before (skipBlanks more)
  | other => stopAt .expectingComma other

/-- An entry takes one step. -/
theorem entries_entryText {name text : String} {v : Value} (h : Encodes v text)
    {before : List (String × Value)} (hname : name ∉ before.map Prod.fst) {fuel nesting : Nat}
    {tail : List Char} (hfuel : text.toList.length ≤ fuel) (hnesting : v.nesting ≤ nesting)
    (htail : Stops tail) :
    Json.entries plain (fuel + 1) nesting (named before) ((entryText name text).toList ++ tail) =
      entriesAfter plain fuel nesting (named (before ++ [(name, v)])) tail := by
  have hopens := h.opens.append tail
  have hinsert := insert_of_fresh (v := v) hname
  rw [toList_entryText]
  conv_lhs => unfold Json.entries
  simp only [string?_escaped]
  change value plain fuel nesting (skipBlanks (text.toList ++ tail)) >>= (fun found =>
    entriesAfter plain fuel nesting (Assoc.insert (.str name) found.1 (named before)) found.2) = _
  rw [hopens.skipBlanks, h.read hfuel hnesting htail, ← hinsert]
  rfl

theorem joined_entryText (name text : String) (texts : List String) :
    ∃ more, joined (entryText name text :: texts) = '"' :: more := by
  have htext := toList_entryText name text []
  rw [List.append_nil] at htext
  cases texts with
  | nil => exact ⟨_, by rw [joined_singleton, htext]⟩
  | cons second texts => exact ⟨_, by rw [joined_cons_cons, htext, List.cons_append]⟩

theorem EncodesEntry.opens {entry : String × Value} {text : String} (h : EncodesEntry entry text) :
    Opens text.toList := by
  obtain ⟨value, -, rfl⟩ := h
  have htext := toList_entryText entry.1 value []
  rw [List.append_nil] at htext
  exact ⟨'"', _, htext, rfl, by decide⟩

/-- The entries of a dictionary take one step each. -/
theorem entries_joined {entries : List (String × Value)} {texts : List String}
    (h : List.Forall₂ EncodesEntry entries texts) (hne : texts ≠ [])
    (before : List (String × Value)) (hkeys : ((before ++ entries).map Prod.fst).Nodup) (fuel : Nat)
    (rest : List Char) (hfuel : (joined texts).length < fuel) {nesting : Nat}
    (hnesting : Value.entriesNesting (named entries) ≤ nesting) :
    Json.entries plain fuel nesting (named before) (joined texts ++ '\x7d' :: rest) =
      .ok (named (before ++ entries), rest) := by
  induction h generalizing before fuel with
  | nil => exact absurd rfl hne
  | @cons entry text entries texts hfirst hrest ih =>
      obtain ⟨name, v⟩ := entry
      obtain ⟨value, hvalue, rfl⟩ := hfirst
      obtain ⟨fuel, rfl⟩ := Nat.exists_eq_add_one_of_ne_zero (Nat.ne_zero_of_lt hfuel)
      obtain ⟨hdeep, hdeeper⟩ := Nat.max_le.mp hnesting
      have hfresh : name ∉ before.map Prod.fst := by
        rw [List.map_append, List.nodup_append] at hkeys
        exact fun hmem => hkeys.2.2 name hmem name List.mem_cons_self rfl
      have happend : before ++ (name, v) :: entries = before ++ [(name, v)] ++ entries := by
        rw [List.append_assoc, List.singleton_append]
      have hlonger : value.toList.length ≤ (entryText name value).toList.length := by
        simp only [entryText, String.toList_append, List.length_append]
        omega
      dsimp only at hfuel ⊢
      cases hrest with
      | nil =>
          rw [joined_singleton] at hfuel ⊢
          rw [entries_entryText hvalue hfresh (by omega) hdeep (stops_cons rest (.inr (.inr rfl)))]
          rfl
      | @cons second other entries texts hsecond hmore =>
          rw [joined_cons_cons, List.length_append, List.length_cons, List.length_cons] at hfuel
          rw [joined_cons_cons, List.append_assoc, List.cons_append, List.cons_append,
            entries_entryText hvalue hfresh (by omega) hdeep (stops_cons _ (.inl rfl))]
          rw [happend] at hkeys ⊢
          have hopens := (opens_joined hsecond.opens texts).append ('\x7d' :: rest)
          change Json.entries plain fuel nesting (named (before ++ [(name, v)]))
            (skipBlanks (joined (other :: texts) ++ '\x7d' :: rest)) = _
          rw [hopens.skipBlanks]
          exact ih (List.cons_ne_nil _ _) _ hkeys fuel (by omega) hdeeper

/-- The entries of a dictionary are written one after another, at every depth. -/
theorem entriesAt_named {entries : List (String × Value)} {texts : List String}
    (h : List.Forall₂ EncodesEntry entries texts) (depth : Nat) :
    entriesAt .line depth (named entries) = .ok texts := by
  induction h with
  | nil => rfl
  | @cons entry text entries texts hfirst _ ih =>
      obtain ⟨value, hvalue, rfl⟩ := hfirst
      have hstep : entriesAt .line depth (named (entry :: entries)) = (do
          let text ← valueAt .line depth entry.2
          return entryText entry.1 text :: (← entriesAt .line depth (named entries))) := rfl
      rw [hstep, hvalue.written depth, ih]
      rfl

/-- A dictionary is read once its entries are. -/
theorem value_brace {fuel nesting : Nat} {cs after : List Char} {found : Dict}
    (h : Json.entries plain fuel nesting [] ('"' :: cs) = .ok (found, after)) :
    value plain (fuel + 1) (nesting + 1) ('{' :: '"' :: cs) = .ok (.dict found, after) := by
  have hstep : value plain (fuel + 1) (nesting + 1) ('{' :: '"' :: cs) =
      Json.entries plain fuel nesting [] ('"' :: cs) >>= fun read => pure (.dict read.1, read.2) := rfl
  rw [hstep, h]
  rfl

theorem encodes_dict {entries : List (String × Value)} {texts : List String}
    (hkeys : (entries.map Prod.fst).Nodup) (h : List.Forall₂ EncodesEntry entries texts) :
    Encodes (.dict (named entries)) (Layout.line.container 0 "\x7b" "\x7d" texts) := by
  have hwritten : ∀ depth, entriesAt .line depth (named entries) = .ok texts := entriesAt_named h
  cases h with
  | nil =>
      refine ⟨fun _ => rfl, ⟨'{', _, rfl, rfl, by decide⟩, ?_⟩
      intro fuel nesting rest hfuel hnesting _
      obtain ⟨fuel, rfl⟩ := Nat.exists_eq_add_of_le' hfuel
      obtain ⟨nesting, rfl⟩ := Nat.exists_eq_add_of_le' hnesting
      rfl
  | @cons entry text entries texts hfirst hrest =>
      have htext : ∀ depth, (Layout.line.container depth "\x7b" "\x7d" (text :: texts)).toList =
          '{' :: (joined (text :: texts) ++ ['\x7d']) :=
        fun depth => toList_container (List.cons_ne_nil _ _) depth "\x7b" "\x7d"
      refine ⟨fun depth => ?_, ⟨'{', _, htext 0, rfl, by decide⟩, ?_⟩
      · unfold valueAt
        rw [hwritten]
        rfl
      · intro fuel nesting rest hfuel hnesting _
        obtain ⟨nesting, rfl⟩ := Nat.exists_eq_add_one_of_ne_zero (Nat.ne_zero_of_lt hnesting)
        have hinner := Nat.le_of_succ_le_succ hnesting
        rw [htext, List.length_cons, List.length_append, List.length_singleton] at hfuel
        obtain ⟨fuel, rfl⟩ := Nat.exists_eq_add_of_le' (Nat.le_trans (Nat.le_add_left 1 _) hfuel)
        have hentries := entries_joined (.cons hfirst hrest) (List.cons_ne_nil _ _) [] hkeys fuel rest
          (by omega) hinner
        obtain ⟨value, -, rfl⟩ := hfirst
        obtain ⟨more, hquote⟩ := joined_entryText entry.1 value texts
        rw [htext, List.cons_append, List.append_assoc, List.singleton_append]
        rw [hquote, List.cons_append] at hentries ⊢
        exact value_brace hentries

theorem exists_texts {α : Type} {R : α → String → Prop} {xs : List α}
    (h : ∀ x ∈ xs, ∃ text, R x text) : ∃ texts, List.Forall₂ R xs texts := by
  induction xs with
  | nil => exact ⟨[], .nil⟩
  | cons x xs ih =>
      obtain ⟨text, htext⟩ := h x List.mem_cons_self
      obtain ⟨texts, htexts⟩ := ih fun y hy => h y (List.mem_cons_of_mem x hy)
      exact ⟨text :: texts, .cons htext htexts⟩

/-- Every value that JSON has a form for is written as a text that is read back as the value. -/
theorem encodes_of_isJson {v : Value} (h : v.IsJson) : ∃ text, Encodes v text := by
  induction h with
  | null => exact ⟨_, encodes_null⟩
  | bool b => exact ⟨_, encodes_bool b⟩
  | int i hlength => exact ⟨_, encodes_int hlength⟩
  | str s => exact ⟨_, encodes_str s⟩
  | list items _ ih =>
      obtain ⟨texts, htexts⟩ := exists_texts ih
      exact ⟨_, encodes_list htexts⟩
  | dict entries hkeys _ ih =>
      have hentries : ∀ entry ∈ entries, ∃ text, EncodesEntry entry text := by
        intro entry hentry
        obtain ⟨text, htext⟩ := ih entry hentry
        exact ⟨entryText entry.1 text, text, htext, rfl⟩
      obtain ⟨texts, htexts⟩ := exists_texts hentries
      exact ⟨_, encodes_dict hkeys htexts⟩

/-- A text without a mark before it is read as its document. -/
theorem readWith_of_document {hook : Hook} {nesting : Nat} {text : String} {v : Value}
    (hmark : (text.toList.head? == some byteOrderMark) = false)
    (h : document hook nesting text.toList = .ok v) : readWith hook nesting text = .ok v := by
  simp only [readWith, hmark, Bool.false_eq_true, if_false, h]

/-- What a JSON value is written as is read back as the value, if its containers may be entered. -/
theorem read_write {v : Value} (h : v.IsJson) :
    ∃ text, write .line v = .ok text ∧ ∀ nesting, v.nesting ≤ nesting → read nesting text = .ok v := by
  obtain ⟨text, hencodes⟩ := encodes_of_isJson h
  refine ⟨text, hencodes.written 0, fun nesting hnesting => ?_⟩
  have hvalue : Json.value plain (2 * text.toList.length + 2) nesting (text.toList ++ []) =
      .ok (v, []) :=
    hencodes.read (by omega) hnesting stops_nil
  rw [List.append_nil] at hvalue
  have hdocument : document plain nesting text.toList = .ok v := by
    unfold document
    rw [hencodes.opens.skipBlanks, hvalue]
    rfl
  have hmark : (text.toList.head? == some byteOrderMark) = false := by
    obtain ⟨c, more, htext, -, -, hmark⟩ := hencodes.opens
    rw [htext]
    simpa using hmark
  exact readWith_of_document hmark hdocument

end Json

end QueryLoom
