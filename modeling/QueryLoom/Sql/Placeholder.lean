import QueryLoom.Text.Word

/-!
Finding the placeholders of an SQL text. Quoted texts, comments and casts are copied as a whole, so
that a colon inside one of them never begins a placeholder. A quote that does not open a complete
region is an ordinary character.
-/

namespace QueryLoom.Placeholder

open Text

/-- A stretch of SQL text: characters to copy, or a placeholder. -/
inductive Span
  | copied (cs : List Char)
  | placeholder (name : List Char)
deriving DecidableEq, Repr

/-- A region that was read, and the text after it. -/
abbrev Taken := Option (List Char × List Char)

/-- Puts characters that were read before in front of a region. -/
def Taken.after (front : List Char) : Taken → Taken
  | some (region, rest) => some (front ++ region, rest)
  | none => none

/-- The rest of a quoted text in which a doubled quote stands for one quote. When the text ends
before the quote is closed, the first quote of the last doubled pair closes it. -/
def closeDoubled (quote : Char) : List Char → Taken
  | [] => none
  | [c] => if c == quote then some ([c], []) else none
  | c :: d :: rest =>
      if c == quote then
        if d == quote then
          match closeDoubled quote rest with
          | some (region, after) => some (c :: d :: region, after)
          | none => some ([c], d :: rest)
        else some ([c], d :: rest)
      else (closeDoubled quote (d :: rest)).after [c]

/-- The rest of a quoted text in which a backslash escapes the next character, which may be anything
but the end of a line. -/
def closeEscaped (quote : Char) : List Char → Taken
  | [] => none
  | [c] => if c == quote then some ([c], []) else none
  | c :: d :: rest =>
      if c == '\\' then
        if d == '\n' then none else (closeEscaped quote rest).after [c, d]
      else if c == quote then some ([c], d :: rest)
      else (closeEscaped quote (d :: rest)).after [c]

def closePlain (quote : Char) : List Char → Taken
  | [] => none
  | c :: rest => if c == quote then some ([c], rest) else (closePlain quote rest).after [c]

def closeBlock : List Char → Taken
  | [] => none
  | '*' :: '/' :: rest => some (['*', '/'], rest)
  | c :: rest => (closeBlock rest).after [c]

/-- Whether a character stands before the end of its line. -/
def isInLine (c : Char) : Bool := c != '\r' && c != '\n'

/-- The region at the front of a text that is copied as a whole: a quoted text, a comment or a
cast. -/
def region? (backslash : Bool) : List Char → Taken
  | '"' :: rest =>
      (if backslash then closeEscaped '"' rest else closeDoubled '"' rest).after ['"']
  | '\'' :: rest =>
      (if backslash then closeEscaped '\'' rest else closeDoubled '\'' rest).after ['\'']
  | '`' :: rest => (closePlain '`' rest).after ['`']
  | '-' :: '-' :: rest => some ('-' :: '-' :: rest.takeWhile isInLine, rest.dropWhile isInLine)
  | '/' :: '*' :: rest => (closeBlock rest).after ['/', '*']
  | ':' :: ':' :: c :: rest =>
      if isWord c then
        some (':' :: ':' :: c :: rest.takeWhile isWord, rest.dropWhile isWord)
      else none
  | _ => none

/-- The placeholder at the front of a text: its name, without the colon, and the rest. -/
def name? : List Char → Taken
  | ':' :: c :: rest =>
      if isWordStart c then some (c :: rest.takeWhile isWord, rest.dropWhile isWord) else none
  | _ => none

/-! What is read and what is left make up the text. -/

theorem Taken.eq_of_after {front region rest : List Char} {t : Taken}
    (h : t.after front = some (region, rest)) :
    ∃ inner, t = some (inner, rest) ∧ region = front ++ inner := by
  match t with
  | none => simp [Taken.after] at h
  | some (inner, rest') =>
      simp only [Taken.after, Option.some.injEq, Prod.mk.injEq] at h
      exact ⟨inner, by rw [h.2], h.1.symm⟩

theorem closeDoubled_append {quote : Char} {cs region rest : List Char}
    (h : closeDoubled quote cs = some (region, rest)) : region ++ rest = cs := by
  fun_induction closeDoubled quote cs generalizing region rest with
  | case1 => simp at h
  | case2 c hc => simp_all
  | case3 c hc => simp at h
  | case4 c d more hc hd region' rest' h' ih =>
      simp only [Option.some.injEq, Prod.mk.injEq] at h
      rw [← h.1, ← h.2, List.cons_append, List.cons_append, ih h']
  | case5 c d more hc hd h' ih =>
      simp only [Option.some.injEq, Prod.mk.injEq] at h
      rw [← h.1, ← h.2]; rfl
  | case6 c d more hc hd =>
      simp only [Option.some.injEq, Prod.mk.injEq] at h
      rw [← h.1, ← h.2]; rfl
  | case7 c d more hc ih =>
      obtain ⟨inner, ht, rfl⟩ := Taken.eq_of_after h
      rw [List.singleton_append, List.cons_append, ih ht]

theorem closeEscaped_append {quote : Char} {cs region rest : List Char}
    (h : closeEscaped quote cs = some (region, rest)) : region ++ rest = cs := by
  fun_induction closeEscaped quote cs generalizing region rest with
  | case1 => simp at h
  | case2 c hc => simp_all
  | case3 c hc => simp at h
  | case4 c d more hc hd => simp at h
  | case5 c d more hc hd ih =>
      obtain ⟨inner, ht, rfl⟩ := Taken.eq_of_after h
      simp [ih ht]
  | case6 c d more hc hq =>
      simp only [Option.some.injEq, Prod.mk.injEq] at h
      rw [← h.1, ← h.2]; rfl
  | case7 c d more hc hq ih =>
      obtain ⟨inner, ht, rfl⟩ := Taken.eq_of_after h
      rw [List.singleton_append, List.cons_append, ih ht]

theorem closePlain_append {quote : Char} {cs region rest : List Char}
    (h : closePlain quote cs = some (region, rest)) : region ++ rest = cs := by
  fun_induction closePlain quote cs generalizing region rest with
  | case1 => simp at h
  | case2 c more hc =>
      simp only [Option.some.injEq, Prod.mk.injEq] at h
      rw [← h.1, ← h.2]; rfl
  | case3 c more hc ih =>
      obtain ⟨inner, ht, rfl⟩ := Taken.eq_of_after h
      rw [List.singleton_append, List.cons_append, ih ht]

theorem closeBlock_append {cs region rest : List Char}
    (h : closeBlock cs = some (region, rest)) : region ++ rest = cs := by
  fun_induction closeBlock cs generalizing region rest with
  | case1 => simp at h
  | case2 more =>
      simp only [Option.some.injEq, Prod.mk.injEq] at h
      rw [← h.1, ← h.2]; rfl
  | case3 c more _ ih =>
      obtain ⟨inner, ht, rfl⟩ := Taken.eq_of_after h
      rw [List.singleton_append, List.cons_append, ih ht]

theorem region?_append {backslash : Bool} {cs region rest : List Char}
    (h : region? backslash cs = some (region, rest)) : region ++ rest = cs := by
  unfold region? at h
  split at h
  · obtain ⟨inner, ht, rfl⟩ := Taken.eq_of_after h
    split at ht
    · simp [closeEscaped_append ht]
    · simp [closeDoubled_append ht]
  · obtain ⟨inner, ht, rfl⟩ := Taken.eq_of_after h
    split at ht
    · simp [closeEscaped_append ht]
    · simp [closeDoubled_append ht]
  · obtain ⟨inner, ht, rfl⟩ := Taken.eq_of_after h
    simp [closePlain_append ht]
  · simp only [Option.some.injEq, Prod.mk.injEq] at h
    simp [← h.1, ← h.2, List.takeWhile_append_dropWhile]
  · obtain ⟨inner, ht, rfl⟩ := Taken.eq_of_after h
    simp [closeBlock_append ht]
  · split at h
    · simp only [Option.some.injEq, Prod.mk.injEq] at h
      simp [← h.1, ← h.2, List.takeWhile_append_dropWhile]
    · simp at h
  · simp at h

theorem region?_ne_nil {backslash : Bool} {cs rest : List Char} :
    region? backslash cs ≠ some ([], rest) := by
  intro h
  unfold region? at h
  split at h
  case h_7 => simp at h
  case h_6 => split at h <;> simp at h
  case h_4 => simp at h
  all_goals
    obtain ⟨inner, _, hn⟩ := Taken.eq_of_after h
    simp at hn

theorem region?_length {backslash : Bool} {cs region rest : List Char}
    (h : region? backslash cs = some (region, rest)) : rest.length < cs.length := by
  have whole := congrArg List.length (region?_append h)
  rw [List.length_append] at whole
  match region, h with
  | [], h => exact absurd h region?_ne_nil
  | _ :: _, _ => rw [List.length_cons] at whole; omega

theorem name?_append {cs name rest : List Char} (h : name? cs = some (name, rest)) :
    ':' :: name ++ rest = cs := by
  unfold name? at h
  split at h
  · split at h
    · simp only [Option.some.injEq, Prod.mk.injEq] at h
      simp [← h.1, ← h.2, List.takeWhile_append_dropWhile]
    · simp at h
  · simp at h

theorem name?_length {cs name rest : List Char} (h : name? cs = some (name, rest)) :
    rest.length < cs.length := by
  have whole := congrArg List.length (name?_append h)
  simp only [List.length_append, List.length_cons] at whole
  omega

/-- The spans of an SQL text. -/
def spans (backslash : Bool) : List Char → List Span
  | [] => []
  | c :: rest =>
      match hr : region? backslash (c :: rest) with
      | some (region, after) =>
          have : after.length ≤ rest.length := Nat.le_of_lt_succ (region?_length hr)
          .copied region :: spans backslash after
      | none =>
          match hn : name? (c :: rest) with
          | some (name, after) =>
              have : after.length ≤ rest.length := Nat.le_of_lt_succ (name?_length hn)
              .placeholder name :: spans backslash after
          | none => .copied [c] :: spans backslash rest
termination_by cs => cs.length

def Span.chars : Span → List Char
  | .copied cs => cs
  | .placeholder name => ':' :: name

/-- The spans of a text make up the text. -/
theorem chars_spans (backslash : Bool) (cs : List Char) :
    (spans backslash cs).flatMap Span.chars = cs := by
  fun_induction spans backslash cs with
  | case1 => rfl
  | case2 c rest region after h _ ih => simp [Span.chars, ih, region?_append h]
  | case3 c rest _ name after h _ ih =>
      have := name?_append h
      simpa [Span.chars, ih] using this
  | case4 c rest _ _ ih => simp [Span.chars, ih]

end QueryLoom.Placeholder
