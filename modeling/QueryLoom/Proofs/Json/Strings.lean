import Mathlib.Tactic.Common
import QueryLoom.Json.Reader
import QueryLoom.Json.Writer

/-!
JSON strings that are written and read. Whatever characters a text holds, its string is read back as
the text: every character is one step of the reader, also one beyond the basic plane, which is written
as two escapes.
-/

namespace QueryLoom.Json

open Text

/-! Codes in hexadecimal digits. -/

/-- The last digit of a code, and the digits before it. -/
theorem hexadecimal_succ (width n : Nat) :
    (hexadecimal (width + 2) n).toList =
      (hexadecimal (width + 1) (n / 16)).toList ++ [(n % 16).digitChar] := by
  simp only [hexadecimal, String.toList_ofList]
  rw [Nat.toDigits_eq_if (by decide : 1 < 16)]
  split_ifs with hlt
  · rw [Nat.div_eq_of_lt hlt, Nat.mod_eq_of_lt hlt, Nat.toDigits_zero]
    simp [List.replicate_succ']
  · rw [List.length_append, List.length_singleton, List.append_assoc]
    congr 2
    omega

theorem hexadecimal_one {n : Nat} (h : n < 16) : (hexadecimal 1 n).toList = [n.digitChar] := by
  simp [hexadecimal, Nat.toDigits_of_lt_base h]

theorem hexadecimal_four {n : Nat} (h : n < 0x10000) :
    (hexadecimal 4 n).toList =
      [(n / 4096).digitChar, (n / 256 % 16).digitChar, (n / 16 % 16).digitChar,
        (n % 16).digitChar] := by
  rw [hexadecimal_succ, hexadecimal_succ, hexadecimal_succ, hexadecimal_one (by omega)]
  simp only [Nat.div_div_eq_div_mul, List.cons_append, List.nil_append]

theorem hexDigit?_digitChar {n : Nat} (h : n < 16) : hexDigit? n.digitChar = some n := by
  have hall : ∀ m : Fin 16, hexDigit? m.val.digitChar = some m.val := by decide
  exact hall ⟨n, h⟩

/-- A code that does not end the text is read back. -/
theorem hexCode?_hexadecimal {n : Nat} (h : n < 0x10000) (e : Char) (rest : List Char) :
    hexCode? ((hexadecimal 4 n).toList ++ e :: rest) = some (n, e :: rest) := by
  rw [hexadecimal_four h]
  have hthird := hexDigit?_digitChar (n := n / 4096) (by omega)
  have hsecond := hexDigit?_digitChar (n := n / 256 % 16) (by omega)
  have hfirst := hexDigit?_digitChar (n := n / 16 % 16) (by omega)
  have hlast := hexDigit?_digitChar (n := n % 16) (by omega)
  simp only [List.cons_append, List.nil_append, hexCode?, hthird, hsecond, hfirst, hlast,
    Option.bind_eq_bind, Option.bind_some, Option.pure_def]
  congr 2
  omega

/-! Escapes. -/

theorem toList_unitEscape (n : Nat) :
    (unitEscape n).toList = '\\' :: 'u' :: (hexadecimal 4 n).toList := by
  simp [unitEscape]

/-- A code that is no high surrogate stands alone, whatever comes next. -/
theorem unicodeEscape_single {n : Nat} (h : n < 0x10000) (hsurrogate : isHighSurrogate n = false)
    (e : Char) (rest : List Char) :
    unicodeEscape ((hexadecimal 4 n).toList ++ e :: rest) = .ok (n, e :: rest) := by
  unfold unicodeEscape
  rw [hexCode?_hexadecimal h]
  dsimp only
  split
  · rw [hsurrogate]
    rfl
  · rfl

/-- The two halves of a code beyond the basic plane are read as one code. -/
theorem unicodeEscape_pair {high low : Nat} (hhigh : isHighSurrogate high = true)
    (hlow : isLowSurrogate low = true) (e : Char) (rest : List Char) :
    unicodeEscape ((hexadecimal 4 high).toList ++
      '\\' :: 'u' :: ((hexadecimal 4 low).toList ++ e :: rest)) =
        .ok (0x10000 + (high - 0xD800) * 0x400 + (low - 0xDC00), e :: rest) := by
  have hhigh' : high < 0x10000 := by
    simp only [isHighSurrogate, Bool.and_eq_true, decide_eq_true_eq] at hhigh
    omega
  have hlow' : low < 0x10000 := by
    simp only [isLowSurrogate, Bool.and_eq_true, decide_eq_true_eq] at hlow
    omega
  have hlong : 4 < ((hexadecimal 4 low).toList ++ e :: rest).length := by
    rw [hexadecimal_four hlow']
    simp
  unfold unicodeEscape
  rw [hexCode?_hexadecimal hhigh']
  simp only [hhigh, hlong, decide_true, Bool.and_self, if_true, hexCode?_hexadecimal hlow', hlow]

theorem toNat_lt (c : Char) : c.toNat < 0x110000 := by
  rcases c.valid with h | ⟨-, h⟩
  · exact Nat.lt_trans h (by decide)
  · exact h

/-- A character is no surrogate, so its code is read as the character. -/
theorem not_surrogate (c : Char) : c.toNat < 0xD800 ∨ 0xE000 ≤ c.toNat := by
  rcases c.valid with h | ⟨h, -⟩
  · exact .inl h
  · exact .inr h

/-- A code beyond the basic plane is made of two surrogates. -/
theorem surrogates_of_code {n : Nat} (hlow : 0x10000 ≤ n) (hhigh : n < 0x110000) :
    isHighSurrogate (0xD800 + (n - 0x10000) / 0x400) = true ∧
      isLowSurrogate (0xDC00 + (n - 0x10000) % 0x400) = true ∧
      0x10000 + (0xD800 + (n - 0x10000) / 0x400 - 0xD800) * 0x400 +
        (0xDC00 + (n - 0x10000) % 0x400 - 0xDC00) = n := by
  simp only [isHighSurrogate, isLowSurrogate, Bool.and_eq_true, decide_eq_true_eq]
  omega

theorem charOfCode?_toNat (c : Char) : charOfCode? c.toNat = some c := by
  have hlt := toNat_lt c
  have hvalid := not_surrogate c
  unfold charOfCode?
  rw [if_neg (by omega), if_neg, Char.ofNat_toNat]
  simp only [Bool.and_eq_true, decide_eq_true_eq]
  omega

/-- How a character is written: by a letter behind a backslash, as itself, or by the escapes of its
units. -/
inductive Escapes (c : Char) : List Char → Prop
  | letter (e : Char) (h : simpleEscape? e = some c) (hunit : e ≠ 'u') : Escapes c ['\\', e]
  | itself (hquote : c ≠ '"') (hslash : c ≠ '\\') (hprintable : 32 ≤ c.toNat) : Escapes c [c]
  | unit (h : c.toNat < 0x10000) : Escapes c (unitEscape c.toNat).toList
  | pair (high low : Nat) (hhigh : isHighSurrogate high = true) (hlow : isLowSurrogate low = true)
      (hcode : 0x10000 + (high - 0xD800) * 0x400 + (low - 0xDC00) = c.toNat) :
      Escapes c ((unitEscape high).toList ++ (unitEscape low).toList)

theorem escapes_escapedChar (c : Char) : Escapes c (escapedChar c).toList := by
  have hlt := toNat_lt c
  have hcode : ∀ n, (c.toNat == n) = true → c = Char.ofNat n := fun n h => by
    rw [← Char.ofNat_toNat c, beq_iff_eq.mp h]
  unfold escapedChar
  dsimp only
  split_ifs with hquote hslash hline hreturn htab hback hform hplain hbasic
  · rw [beq_iff_eq.mp hquote]
    exact .letter '"' rfl (by decide)
  · rw [beq_iff_eq.mp hslash]
    exact .letter '\\' rfl (by decide)
  · rw [beq_iff_eq.mp hline]
    exact .letter 'n' rfl (by decide)
  · rw [beq_iff_eq.mp hreturn]
    exact .letter 'r' rfl (by decide)
  · rw [beq_iff_eq.mp htab]
    exact .letter 't' rfl (by decide)
  · rw [hcode 8 hback]
    exact .letter 'b' rfl (by decide)
  · rw [hcode 12 hform]
    exact .letter 'f' rfl (by decide)
  · rw [Bool.and_eq_true, decide_eq_true_eq] at hplain
    rw [String.toList_singleton]
    refine .itself (fun h => hquote ?_) (fun h => hslash ?_) hplain.1
    · rw [h, beq_self_eq_true]
    · rw [h, beq_self_eq_true]
  · exact .unit hbasic
  · obtain ⟨hhigh, hlow, hcode⟩ := surrogates_of_code (Nat.not_lt.mp hbasic) hlt
    rw [String.toList_append]
    exact .pair _ _ hhigh hlow hcode

/-! Strings. -/

variable {opening : List Char} {fuel : Nat}

/-- A code is read at once, before the rest of the text. -/
theorem stringRest_unicode (digits : List Char) :
    stringRest opening (fuel + 1) ('\\' :: 'u' :: digits) = (do
      let (code, after) ← unicodeEscape digits
      let (more, after) ← stringRest opening fuel after
      return ((charOfCode? code).toList ++ more, after)) :=
  rfl

/-- A character takes one step. -/
theorem stringRest_escapes {c : Char} {text : List Char} (h : Escapes c text) (e : Char)
    {rest after cs : List Char} (hrest : stringRest opening fuel (e :: rest) = .ok (cs, after)) :
    stringRest opening (fuel + 1) (text ++ e :: rest) = .ok (c :: cs, after) := by
  have hunit : ∀ digits, unicodeEscape digits = .ok (c.toNat, e :: rest) →
      stringRest opening (fuel + 1) ('\\' :: 'u' :: digits) = .ok (c :: cs, after) := by
    intro digits hdigits
    rw [stringRest_unicode, hdigits]
    change stringRest opening fuel (e :: rest) >>=
      (fun found => pure ((charOfCode? c.toNat).toList ++ found.1, found.2)) = _
    rw [charOfCode?_toNat, hrest]
    rfl
  cases h with
  | letter x h hx =>
      simp only [List.cons_append, List.nil_append, stringRest]
      rw [if_neg (by decide), if_pos (by decide), h, hrest]
      rfl
  | itself hquote hslash hprintable =>
      simp only [List.singleton_append, stringRest, beq_eq_false_iff_ne.mpr hquote,
        beq_eq_false_iff_ne.mpr hslash, Nat.not_lt.mpr hprintable, Bool.false_eq_true, if_false,
        hrest]
      rfl
  | unit hbasic =>
      have hsurrogate : isHighSurrogate c.toNat = false := by
        have hvalid := not_surrogate c
        simp only [isHighSurrogate, Bool.and_eq_false_iff, decide_eq_false_iff_not]
        omega
      rw [toList_unitEscape]
      exact hunit _ (unicodeEscape_single hbasic hsurrogate e rest)
  | pair high low hhigh hlow hcode =>
      rw [toList_unitEscape, toList_unitEscape, List.append_assoc]
      refine hunit _ ?_
      rw [← hcode]
      exact unicodeEscape_pair hhigh hlow e rest

/-- The characters of a string between its quotes. -/
def escaped (cs : List Char) : List Char := cs.flatMap fun c => (escapedChar c).toList

theorem toList_string (s : String) : (string s).toList = '"' :: (escaped s.toList ++ ['"']) := by
  simp [string, escaped, String.toList_join, List.flatMap_map]

theorem stringRest_escaped (cs rest : List Char) (h : cs.length < fuel) :
    stringRest opening fuel (escaped cs ++ '"' :: rest) = .ok (cs, rest) := by
  induction cs generalizing fuel with
  | nil =>
      obtain ⟨fuel, rfl⟩ := Nat.exists_eq_add_one_of_ne_zero (Nat.ne_zero_of_lt h)
      rfl
  | cons c cs ih =>
      obtain ⟨fuel, rfl⟩ := Nat.exists_eq_add_one_of_ne_zero (Nat.ne_zero_of_lt h)
      obtain ⟨e, more, htail⟩ := List.exists_cons_of_ne_nil
        (List.append_ne_nil_of_right_ne_nil (escaped cs) (List.cons_ne_nil '"' rest))
      have hsplit : escaped (c :: cs) ++ '"' :: rest = (escapedChar c).toList ++ e :: more := by
        rw [← htail, escaped, List.flatMap_cons, List.append_assoc]
        rfl
      rw [hsplit]
      refine stringRest_escapes (escapes_escapedChar c) e ?_
      rw [← htail]
      exact ih (Nat.lt_of_succ_lt_succ h)

theorem Escapes.ne_nil {c : Char} {text : List Char} (h : Escapes c text) : text ≠ [] := by
  cases h <;> simp [toList_unitEscape]

theorem length_le_escaped (cs : List Char) : cs.length ≤ (escaped cs).length := by
  induction cs with
  | nil => exact Nat.le_refl 0
  | cons c cs ih =>
      have hpos := List.length_pos_iff.mpr (escapes_escapedChar c).ne_nil
      rw [escaped, List.flatMap_cons, List.length_append, List.length_cons]
      rw [escaped] at ih
      omega

/-- A string is read back as its text. -/
theorem string?_escaped (opening : List Char) (s : String) (rest : List Char) :
    string? opening (escaped s.toList ++ '"' :: rest) = .ok (s, rest) := by
  have hfuel : s.toList.length < (escaped s.toList ++ '"' :: rest).length + 1 := by
    have hlength := length_le_escaped s.toList
    rw [List.length_append]
    omega
  unfold string?
  rw [stringRest_escaped _ _ hfuel]
  change Except.ok (String.ofList s.toList, rest) = _
  rw [String.ofList_toList]

end QueryLoom.Json
