import Mathlib.Data.List.TakeWhile
import Mathlib.Tactic.Common
import QueryLoom.Value.Convert

/-!
The texts of numbers. The grammar is

    number := [+ | -] digits [. [digits]] [power] | [+ | -] . digits [power]
    power  := (e | E) [+ | -] digits
    whole  := [+ | -] digits

and besides numbers there are the words for infinity and for not a number. The readers accept exactly
these texts, after the blanks at the ends and the underscores between digits are left out.
-/

namespace QueryLoom

namespace Reading

open Text

variable {cs digits rest : List Char} {negative : Bool}

/-! Grammar. -/

/-- A text of nothing but digits. -/
def AreDigits (cs : List Char) : Prop := ∀ c ∈ cs, c.isDigit = true

/-- The text of a sign, which may be missing. -/
inductive SignText : List Char → Bool → Prop
  | none : SignText [] false
  | plus : SignText ['+'] false
  | minus : SignText ['-'] true

/-- A whole number with its sign. -/
def signed (negative : Bool) (n : Nat) : Int := if negative then -n else n

/-- The text of a power of ten, which may be missing. -/
inductive PowerText : List Char → Int → Prop
  | none : PowerText [] 0
  | some {letter : Char} {sign digits : List Char} {negative : Bool}
      (hletter : letter = 'e' ∨ letter = 'E') (hsign : SignText sign negative)
      (hdigits : AreDigits digits) (hne : digits ≠ []) :
      PowerText (letter :: (sign ++ digits)) (signed negative (Nat.ofDigitChars 10 digits 0))

/-- The text of a point and the digits behind it, which may be missing. -/
inductive PlacesText : List Char → List Char → Prop
  | none : PlacesText [] []
  | some {places : List Char} (hdigits : AreDigits places) : PlacesText ('.' :: places) places

/-- The text of a number without a sign: the whole number that its digits form without the point, and the
power of ten that it is multiplied with. -/
inductive UnsignedText : List Char → Nat → Int → Prop
  | intro {whole point places power : List Char} {exponent : Int} (hwhole : AreDigits whole)
      (hplaces : PlacesText point places) (hne : whole ++ places ≠ [])
      (hpower : PowerText power exponent) :
      UnsignedText (whole ++ (point ++ power)) (Nat.ofDigitChars 10 (whole ++ places) 0)
        (exponent - places.length)

/-- The text of a number, `± coefficient · 10^exponent`. -/
inductive NumberText : List Char → Bool → Nat → Int → Prop
  | intro {sign body : List Char} {negative : Bool} {coefficient : Nat} {exponent : Int}
      (hsign : SignText sign negative) (hbody : UnsignedText body coefficient exponent) :
      NumberText (sign ++ body) negative coefficient exponent

/-- The text of a whole number with so many digits. -/
inductive WholeText : List Char → Bool → Nat → Nat → Prop
  | intro {sign digits : List Char} {negative : Bool} (hsign : SignText sign negative)
      (hdigits : AreDigits digits) (hne : digits ≠ []) :
      WholeText (sign ++ digits) negative digits.length (Nat.ofDigitChars 10 digits 0)

/-- Whether a text is the text of a whole number with no more digits than one is read with. -/
def IsWholeText (cs : List Char) : Prop :=
  ∃ negative count n, WholeText cs negative count n ∧ count ≤ digitLimit

/-- The words for infinity, with a sign, and for not a number. -/
inductive WordText : List Char → Binary64 → Prop
  | infinite {sign word : List Char} {negative : Bool} (hsign : SignText sign negative)
      (hword : word.map Char.toLower = "inf".toList ∨ word.map Char.toLower = "infinity".toList) :
      WordText (sign ++ word) (.infinite negative)
  | nan {sign word : List Char} {negative : Bool} (hsign : SignText sign negative)
      (hword : word.map Char.toLower = "nan".toList) : WordText (sign ++ word) .nan

/-- The text of a floating point number. -/
inductive FloatText : List Char → Binary64 → Prop
  | word {cs : List Char} {x : Binary64} (h : WordText cs x) : FloatText cs x
  | number {cs : List Char} {negative : Bool} {coefficient : Nat} {exponent : Int}
      (h : NumberText cs negative coefficient exponent) :
      FloatText cs (.ofDecimal negative coefficient exponent)

/-! Signs and digits. -/

/-- Whether a text begins with a sign. -/
def StartsWithSign (cs : List Char) : Prop := ∃ c ∈ cs.head?, c = '+' ∨ c = '-'

theorem takeSign_append {sign : List Char} (hsign : SignText sign negative)
    (h : ¬StartsWithSign cs) : takeSign (sign ++ cs) = (negative, cs) := by
  cases hsign with
  | none =>
      rw [List.nil_append, takeSign.eq_def]
      split
      · exact absurd ⟨_, rfl, .inr rfl⟩ h
      · exact absurd ⟨_, rfl, .inl rfl⟩ h
      · rfl
  | plus => rfl
  | minus => rfl

theorem exists_signText (cs : List Char) :
    ∃ sign, SignText sign (takeSign cs).1 ∧ cs = sign ++ (takeSign cs).2 := by
  rw [takeSign.eq_def]
  split
  · exact ⟨_, .minus, rfl⟩
  · exact ⟨_, .plus, rfl⟩
  · exact ⟨_, .none, rfl⟩

/-- Whether a text does not go on with a digit. -/
def EndsDigits (rest : List Char) : Prop := ∀ c ∈ rest.head?, c.isDigit = false

theorem takeWhile_digits (hdigits : AreDigits digits) (hrest : EndsDigits rest) :
    (digits ++ rest).takeWhile Char.isDigit = digits ∧
      (digits ++ rest).dropWhile Char.isDigit = rest := by
  rw [List.takeWhile_append_of_pos hdigits, List.dropWhile_append_of_pos hdigits]
  cases rest with
  | nil => simp
  | cons c rest =>
      have hc : ¬c.isDigit = true := by simp [hrest c rfl]
      rw [List.takeWhile_cons_of_neg hc, List.dropWhile_cons_of_neg hc, List.append_nil]
      exact ⟨rfl, rfl⟩

theorem areDigits_takeWhile (cs : List Char) : AreDigits (cs.takeWhile Char.isDigit) :=
  fun _ hc => List.mem_takeWhile_imp hc

theorem AreDigits.not_startsWithSign (h : AreDigits cs) : ¬StartsWithSign cs := by
  rintro ⟨c, hc, rfl | rfl⟩
  · cases h _ (List.mem_of_head? hc)
  · cases h _ (List.mem_of_head? hc)

/-! Decimal notation. -/

theorem power?_eq_some_iff {exponent : Int} : power? cs = some exponent ↔ PowerText cs exponent := by
  constructor
  · intro h
    cases cs with
    | nil =>
        obtain rfl := Option.some.inj h
        exact .none
    | cons letter rest =>
        rw [power?] at h
        dsimp only at h
        by_cases hform : ((letter == 'e' || letter == 'E') && !(takeSign rest).2.isEmpty &&
          (takeSign rest).2.all Char.isDigit) = true
        swap
        · rw [if_neg hform] at h
          cases h
        rw [if_pos hform] at h
        obtain rfl := Option.some.inj h
        simp only [Bool.and_eq_true, Bool.or_eq_true, beq_iff_eq, Bool.not_eq_true',
          List.isEmpty_eq_false_iff] at hform
        obtain ⟨⟨hletter, hne⟩, hdigits⟩ := hform
        obtain ⟨sign, hsign, hsplit⟩ := exists_signText rest
        have htext := PowerText.some hletter hsign (List.all_eq_true.mp hdigits) hne
        rw [← hsplit] at htext
        exact htext
  · intro h
    cases h with
    | none => rfl
    | @some letter sign digits negative hletter hsign hdigits hne =>
        have hform : ((letter == 'e' || letter == 'E') && !digits.isEmpty &&
            digits.all Char.isDigit) = true := by
          simp only [Bool.and_eq_true, Bool.or_eq_true, beq_iff_eq, Bool.not_eq_true',
            List.isEmpty_eq_false_iff]
          exact ⟨⟨hletter, hne⟩, List.all_eq_true.mpr hdigits⟩
        rw [power?, takeSign_append hsign hdigits.not_startsWithSign]
        dsimp only
        rw [if_pos hform]
        rfl

theorem PowerText.endsDigits {exponent : Int} (h : PowerText cs exponent) : EndsDigits cs := by
  cases h with
  | none => exact nofun
  | some hletter hsign hdigits hne =>
      rintro c hc
      obtain rfl := Option.some.inj hc
      rcases hletter with rfl | rfl <;> rfl

theorem PowerText.head_ne_point {exponent : Int} (h : PowerText cs exponent) :
    cs.head? ≠ Option.some '.' := by
  cases h with
  | none => exact nofun
  | some hletter hsign hdigits hne =>
      intro hhead
      obtain rfl := Option.some.inj hhead
      rcases hletter with hletter | hletter <;> cases hletter

theorem decimalNotation?_eq_some_iff {coefficient : Nat} {exponent : Int} :
    decimalNotation? cs = some (coefficient, exponent) ↔ UnsignedText cs coefficient exponent := by
  constructor
  · intro h
    have hwhole := areDigits_takeWhile cs
    have hsplit := List.takeWhile_append_dropWhile (p := Char.isDigit) (l := cs)
    unfold decimalNotation? at h
    dsimp only at h
    generalize cs.takeWhile Char.isDigit = whole at h hwhole hsplit
    generalize cs.dropWhile Char.isDigit = rest at h hsplit
    obtain ⟨point, places, power, hplaces, hrest, h⟩ : ∃ point places power,
        PlacesText point places ∧ rest = point ++ power ∧
          (power? power).bind (fun power => if whole.isEmpty && places.isEmpty then none
            else some (digitsValue (whole ++ places), power - places.length)) =
          some (coefficient, exponent) := by
      split at h
      · next more =>
          refine ⟨_, _, _, .some (areDigits_takeWhile more), ?_, h⟩
          rw [List.cons_append, List.takeWhile_append_dropWhile]
      · exact ⟨[], [], rest, .none, rfl, h⟩
    obtain ⟨exponent, hpower, h⟩ := Option.bind_eq_some_iff.mp h
    split_ifs at h with hempty
    obtain ⟨rfl, rfl⟩ := Prod.mk.inj (Option.some.inj h)
    rw [← hsplit, hrest]
    refine .intro hwhole hplaces ?_ (power?_eq_some_iff.mp hpower)
    simpa only [Bool.and_eq_true, List.isEmpty_iff, List.append_eq_nil_iff, ne_eq] using hempty
  · rintro @⟨whole, point, places, power, exponent, hwhole, hplaces, hne, hpower⟩
    have hread := power?_eq_some_iff.mpr hpower
    have hform : ∀ whole places : List Char, whole ++ places ≠ [] →
        ¬(whole.isEmpty && places.isEmpty) = true := by
      intro whole places hne
      simpa only [Bool.and_eq_true, List.isEmpty_iff, List.append_eq_nil_iff, ne_eq] using hne
    unfold decimalNotation?
    dsimp only
    cases hplaces with
    | none =>
        obtain ⟨htake, hdrop⟩ := takeWhile_digits hwhole hpower.endsDigits
        rw [List.nil_append, htake, hdrop]
        split
        · exact absurd rfl hpower.head_ne_point
        · rw [hread]
          exact if_neg (hform _ _ hne)
    | some hdigits =>
        have hpoint : EndsDigits ('.' :: (places ++ power)) := by
          rintro c ⟨⟩
          rfl
        obtain ⟨htake, hdrop⟩ := takeWhile_digits hwhole hpoint
        obtain ⟨htake', hdrop'⟩ := takeWhile_digits hdigits hpower.endsDigits
        rw [List.cons_append, htake, hdrop]
        simp only [htake', hdrop', hread]
        exact if_neg (hform _ _ hne)

/-- A number without a sign begins with a digit or a point. -/
theorem UnsignedText.exists_head {coefficient : Nat} {exponent : Int}
    (h : UnsignedText cs coefficient exponent) : ∃ c ∈ cs.head?, c.isDigit = true ∨ c = '.' := by
  obtain @⟨whole, point, places, power, exponent, hwhole, hplaces, hne, -⟩ := h
  cases whole with
  | cons d whole => exact ⟨d, rfl, .inl (hwhole d List.mem_cons_self)⟩
  | nil =>
      cases hplaces with
      | none => exact absurd rfl hne
      | some hdigits => exact ⟨'.', rfl, .inr rfl⟩

theorem UnsignedText.not_startsWithSign {coefficient : Nat} {exponent : Int}
    (h : UnsignedText cs coefficient exponent) : ¬StartsWithSign cs := by
  rintro ⟨c, hc, hsign⟩
  obtain ⟨d, hd, hfirst⟩ := h.exists_head
  obtain rfl := Option.mem_unique hc hd
  rcases hsign with rfl | rfl <;> exact absurd hfirst (by decide)

theorem numberText_iff {coefficient : Nat} {exponent : Int} :
    NumberText cs negative coefficient exponent ↔
      (takeSign cs).1 = negative ∧
        decimalNotation? (takeSign cs).2 = some (coefficient, exponent) := by
  constructor
  · rintro ⟨hsign, hbody⟩
    rw [takeSign_append hsign hbody.not_startsWithSign]
    exact ⟨rfl, decimalNotation?_eq_some_iff.mpr hbody⟩
  · rintro ⟨rfl, h⟩
    obtain ⟨sign, hsign, hsplit⟩ := exists_signText cs
    have htext := NumberText.intro hsign (decimalNotation?_eq_some_iff.mp h)
    rwa [← hsplit] at htext

/-! The readers. -/

/-- A text without the blanks at its ends and the underscores between its digits. -/
def plain? (cs : List Char) : Option (List Char) := joinGroups? none (trimWhile isAsciiBlank cs)

/-- A whole number is read exactly from its text, if that does not have too many digits. -/
theorem wholeOfAscii?_eq_some_iff {i : Int} : wholeOfAscii? cs = some i ↔
    ∃ plain negative count n, plain? cs = some plain ∧ WholeText plain negative count n ∧
      count ≤ digitLimit ∧ i = signed negative n := by
  have hrefused : ∀ digits : List Char,
      (digits.isEmpty || !digits.all Char.isDigit || decide (digitLimit < digits.length)) = true ↔
        ¬(digits ≠ [] ∧ AreDigits digits ∧ digits.length ≤ digitLimit) := by
    intro digits
    rw [← not_iff_not, not_not, AreDigits, ← List.all_eq_true]
    simp [and_assoc]
  have hread : wholeOfAscii? cs = (plain? cs).bind fun plain =>
      if ((takeSign plain).2.isEmpty || !(takeSign plain).2.all Char.isDigit ||
        decide (digitLimit < (takeSign plain).2.length)) = true then none
      else some (signed (takeSign plain).1 (digitsValue (takeSign plain).2)) := rfl
  rw [hread, Option.bind_eq_some_iff]
  constructor
  · rintro ⟨plain, hplain, h⟩
    split_ifs at h with hbad
    rw [hrefused, not_not] at hbad
    obtain ⟨hne, hdigits, hlimit⟩ := hbad
    obtain rfl := Option.some.inj h
    obtain ⟨sign, hsign, hsplit⟩ := exists_signText plain
    have htext := WholeText.intro hsign hdigits hne
    rw [← hsplit] at htext
    exact ⟨plain, _, _, _, hplain, htext, hlimit, rfl⟩
  · rintro ⟨plain, negative, count, n, hplain, ⟨hsign, hdigits, hne⟩, hlimit, rfl⟩
    refine ⟨_, hplain, ?_⟩
    rw [takeSign_append hsign hdigits.not_startsWithSign,
      if_neg (fun hbad => (hrefused _).mp hbad ⟨hne, hdigits, hlimit⟩)]
    rfl

/-! Words. -/

theorem toLower_of_isDigit {c : Char} (h : c.isDigit = true) : c.toLower = c := by
  simp only [Char.isDigit, Bool.and_eq_true, decide_eq_true_eq] at h
  have hupper : ¬(c.val ≥ 'A'.val ∧ c.val ≤ 'Z'.val) := by
    rintro ⟨hge, -⟩
    have hletter : 65 ≤ c.toNat := hge
    have hdigit : c.toNat ≤ 57 := h.2
    omega
  exact dif_neg hupper

theorem not_startsWithSign_of_word {word letters : List Char}
    (hword : word.map Char.toLower = letters) (h : ¬StartsWithSign letters) :
    ¬StartsWithSign word := by
  rintro ⟨c, hc, hsign⟩
  refine h ⟨c, ?_, hsign⟩
  rw [← hword, List.head?_map, Option.mem_def.mp hc]
  rcases hsign with rfl | rfl <;> rfl

/-- A number is no word. -/
theorem UnsignedText.ne_word {coefficient : Nat} {exponent : Int} {letters : List Char}
    (h : UnsignedText cs coefficient exponent)
    (hletters : ∀ c ∈ letters.head?, c.isDigit = false ∧ c ≠ '.') :
    cs.map Char.toLower ≠ letters := by
  intro hword
  obtain ⟨c, hc, hfirst⟩ := h.exists_head
  have hlower : c.toLower = c := by
    rcases hfirst with hdigit | rfl
    · exact toLower_of_isDigit hdigit
    · rfl
  have hhead : c ∈ letters.head? := by
    rw [← hword, List.head?_map, Option.mem_def.mp hc, Option.map_some, hlower]
    rfl
  obtain ⟨hnot, hne⟩ := hletters c hhead
  rcases hfirst with hdigit | rfl
  · rw [hdigit] at hnot
    cases hnot
  · exact hne rfl

/-- The floating point number of a plain text. -/
def float? (plain : List Char) : Option Binary64 :=
  let word := (takeSign plain).2.map Char.toLower
  if word = "inf".toList ∨ word = "infinity".toList then some (.infinite (takeSign plain).1)
  else if word = "nan".toList then some .nan
  else (decimalNotation? (takeSign plain).2).map fun number =>
    .ofDecimal (takeSign plain).1 number.1 number.2

theorem binary64OfAscii?_eq (cs : List Char) : binary64OfAscii? cs = (plain? cs).bind float? := by
  have hsame : ∀ (cs : List Char) (s : String), (String.ofList cs == s) = true ↔ cs = s.toList := by
    intro cs s
    rw [beq_iff_eq, ← String.toList_inj, String.toList_ofList]
  unfold binary64OfAscii?
  refine congrArg _ (funext fun plain => ?_)
  simp only [Bool.or_eq_true, hsame]
  rfl

theorem float?_eq_some_iff {plain : List Char} {x : Binary64} :
    float? plain = some x ↔ FloatText plain x := by
  unfold float?
  dsimp only
  constructor
  · intro h
    obtain ⟨sign, hsign, hsplit⟩ := exists_signText plain
    split_ifs at h with hinfinite hnan
    · obtain rfl := Option.some.inj h
      have htext := WordText.infinite hsign hinfinite
      rw [← hsplit] at htext
      exact .word htext
    · obtain rfl := Option.some.inj h
      have htext := WordText.nan hsign hnan
      rw [← hsplit] at htext
      exact .word htext
    · obtain ⟨⟨coefficient, exponent⟩, hnumber, rfl⟩ := Option.map_eq_some_iff.mp h
      exact .number (numberText_iff.mpr ⟨rfl, hnumber⟩)
  · have hinf : ¬StartsWithSign "inf".toList := by
      rintro ⟨c, ⟨⟩, hsign | hsign⟩ <;> cases hsign
    have hinfinity : ¬StartsWithSign "infinity".toList := by
      rintro ⟨c, ⟨⟩, hsign | hsign⟩ <;> cases hsign
    have hnan : ¬StartsWithSign "nan".toList := by
      rintro ⟨c, ⟨⟩, hsign | hsign⟩ <;> cases hsign
    rintro ((⟨hsign, hword⟩ | ⟨hsign, hword⟩) | hnumber)
    · have hbody := hword.elim (not_startsWithSign_of_word · hinf)
        (not_startsWithSign_of_word · hinfinity)
      rw [takeSign_append hsign hbody, if_pos hword]
    · rw [takeSign_append hsign (not_startsWithSign_of_word hword hnan), if_neg, if_pos hword]
      rw [hword]
      decide
    · obtain @⟨sign, body, _, _, _, hsign, hbody⟩ := hnumber
      have hne : ∀ s : String, s.toList.head? = some 'i' ∨ s.toList.head? = some 'n' →
          body.map Char.toLower ≠ s.toList := by
        intro s hs
        refine hbody.ne_word fun c hc => ?_
        rcases hs with hs | hs <;> rw [hs] at hc <;> obtain rfl := Option.some.inj hc <;> decide
      rw [takeSign_append hsign hbody.not_startsWithSign,
        if_neg (not_or.mpr ⟨hne _ (.inl rfl), hne _ (.inl rfl)⟩), if_neg (hne _ (.inr rfl)),
        decimalNotation?_eq_some_iff.mpr hbody]
      rfl

/-- A floating point number is read exactly from its text. -/
theorem binary64OfAscii?_eq_some_iff {x : Binary64} : binary64OfAscii? cs = some x ↔
    ∃ plain, plain? cs = some plain ∧ FloatText plain x := by
  simp only [binary64OfAscii?_eq, Option.bind_eq_some_iff, float?_eq_some_iff]

/-! Plain texts. -/

/-- The characters of a number in decimal notation. -/
def IsNumberChar (c : Char) : Prop := c.isDigit = true ∨ c ∈ ['+', '-', '.', 'e', 'E']

theorem IsNumberChar.plain {c : Char} (h : IsNumberChar c) :
    c.toNat < 128 ∧ isAsciiBlank c = false ∧ c ≠ '_' := by
  rcases h with hdigit | hsign
  · simp only [Char.isDigit, Bool.and_eq_true, decide_eq_true_eq] at hdigit
    have hle : 48 ≤ c.toNat := hdigit.1
    have hge : c.toNat ≤ 57 := hdigit.2
    refine ⟨by omega, ?_, ?_⟩
    · rw [isAsciiBlank, Bool.or_eq_false_iff, Bool.and_eq_false_iff, decide_eq_false_iff_not,
        decide_eq_false_iff_not]
      refine ⟨?_, by omega⟩
      rw [beq_eq_false_iff_ne]
      rintro rfl
      exact absurd hle (by decide)
    · rintro rfl
      exact absurd hge (by decide)
  · have hall : ['+', '-', '.', 'e', 'E'].all
        (fun c => decide (c.toNat < 128 ∧ isAsciiBlank c = false ∧ c ≠ '_')) = true := by
      decide
    exact of_decide_eq_true (List.all_eq_true.mp hall c hsign)

theorem SignText.chars {sign : List Char} (h : SignText sign negative) :
    ∀ c ∈ sign, IsNumberChar c := by
  cases h with
  | none => exact nofun
  | _ => exact List.forall_mem_singleton.mpr (.inr (by decide))

theorem AreDigits.chars (h : AreDigits cs) : ∀ c ∈ cs, IsNumberChar c := fun c hc => .inl (h c hc)

theorem NumberText.chars {coefficient : Nat} {exponent : Int}
    (h : NumberText cs negative coefficient exponent) : ∀ c ∈ cs, IsNumberChar c := by
  obtain ⟨hsign, hwhole, hplaces, -, hpower⟩ := h
  simp only [List.forall_mem_append]
  refine ⟨hsign.chars, hwhole.chars, ?_, ?_⟩
  · cases hplaces with
    | none => exact nofun
    | some hdigits => exact List.forall_mem_cons.mpr ⟨.inr (by decide), hdigits.chars⟩
  · cases hpower with
    | none => exact nofun
    | some hletter hsign hdigits _ =>
        refine List.forall_mem_cons.mpr ⟨.inr ?_, List.forall_mem_append.mpr ⟨hsign.chars,
          hdigits.chars⟩⟩
        rcases hletter with rfl | rfl <;> decide

theorem joinGroups?_of_not_mem {before : Option Char} (hbefore : before ≠ some '_') (h : '_' ∉ cs) :
    joinGroups? before cs = some cs := by
  induction cs generalizing before with
  | nil => rw [joinGroups?, if_neg (by simpa using hbefore)]
  | cons c rest ih =>
      rw [List.mem_cons, not_or] at h
      have hc : some c ≠ some '_' := fun heq => h.1 (Option.some.inj heq).symm
      have hgroup : ¬(before == some '_' && !c.isDigit) = true := by
        rw [Bool.and_eq_true, beq_iff_eq]
        exact fun hboth => hbefore hboth.1
      rw [joinGroups?, if_neg (by simpa using fun heq => h.1 heq.symm), if_neg hgroup, ih hc h.2]
      rfl

theorem asciiForm?_of_ascii (h : ∀ c ∈ cs, c.toNat < 128) : asciiForm? cs = some cs := by
  induction cs with
  | nil => rfl
  | cons c rest ih =>
      rw [List.forall_mem_cons] at h
      have hrest := ih h.2
      unfold asciiForm? at hrest ⊢
      rw [List.mapM_cons, hrest, if_pos h.1]
      rfl

theorem trimWhile_of_forall {p : Char → Bool} (h : ∀ c ∈ cs, p c = false) : trimWhile p cs = cs := by
  have hdrop : ∀ ds : List Char, (∀ c ∈ ds, p c = false) → ds.dropWhile p = ds := by
    intro ds hds
    cases ds with
    | nil => rfl
    | cons d ds => exact List.dropWhile_cons_of_neg (by simp [hds d List.mem_cons_self])
  rw [trimWhile, hdrop cs h, hdrop _ (fun c hc => h c (List.mem_reverse.mp hc)), List.reverse_reverse]

/-- A text of nothing but the characters of numbers is its own plain form. -/
theorem plain?_of_chars (h : ∀ c ∈ cs, IsNumberChar c) :
    asciiForm? cs = some cs ∧ plain? cs = some cs := by
  refine ⟨asciiForm?_of_ascii fun c hc => (h c hc).plain.1, ?_⟩
  rw [plain?, trimWhile_of_forall fun c hc => (h c hc).plain.2.1]
  exact joinGroups?_of_not_mem nofun fun hmem => (h _ hmem).plain.2.2 rfl

theorem WholeText.numberText {count n : Nat} (h : WholeText cs negative count n) :
    NumberText cs negative n 0 := by
  obtain ⟨hsign, hdigits, hne⟩ := h
  have hbody := UnsignedText.intro hdigits .none (by rwa [List.append_nil]) .none
  simp only [List.append_nil, List.length_nil] at hbody
  exact .intro hsign hbody

theorem NumberText.unique {negative' : Bool} {coefficient coefficient' : Nat}
    {exponent exponent' : Int} (h : NumberText cs negative coefficient exponent)
    (h' : NumberText cs negative' coefficient' exponent') :
    negative = negative' ∧ coefficient = coefficient' ∧ exponent = exponent' := by
  obtain ⟨hsign, hread⟩ := numberText_iff.mp h
  obtain ⟨hsign', hread'⟩ := numberText_iff.mp h'
  refine ⟨hsign.symm.trans hsign', ?_⟩
  exact Prod.mk.inj (Option.some.inj (hread.symm.trans hread'))

end Reading

/-! Values. -/

namespace Value

open Reading

variable {v : Value} {plain : List Char}

/-- The plain form of a value that is a text or octets. -/
def plainText? : Value → Option (List Char)
  | .str s => (asciiForm? s.toList).bind plain?
  | .bytes o => plain? (octetChars o)
  | _ => none

/-- Whether a value is a text or octets. -/
def IsWritten (v : Value) : Prop := (∃ s, v = .str s) ∨ ∃ o, v = .bytes o

theorem isWritten_of_plainText? (h : v.plainText? = some plain) : v.IsWritten := by
  cases v with
  | str s => exact .inl ⟨s, rfl⟩
  | bytes o => exact .inr ⟨o, rfl⟩
  | _ => cases h

theorem elim_eq_ok_iff {α : Type} {o : Option α} {a : α} {fault : Fault} :
    o.elim (.error fault) .ok = (.ok a : Except Fault α) ↔ o = some a := by
  cases o <;> simp

/-- What is written is a whole number exactly if it is the text of one. -/
theorem toWhole_eq_ok_iff {i : Int} (h : v.IsWritten) : v.toWhole = .ok i ↔
    ∃ plain negative count n, v.plainText? = some plain ∧ WholeText plain negative count n ∧
      count ≤ digitLimit ∧ i = signed negative n := by
  obtain ⟨s, rfl⟩ | ⟨o, rfl⟩ := h
  · rw [toWhole, elim_eq_ok_iff, plainText?, whole?]
    cases asciiForm? s.toList with
    | none => simp
    | some ascii => exact wholeOfAscii?_eq_some_iff
  · rw [toWhole, elim_eq_ok_iff]
    exact wholeOfAscii?_eq_some_iff

/-- What is written is a floating point number exactly if it is the text of one. -/
theorem toBinary64_eq_ok_iff {x : Binary64} (h : v.IsWritten) :
    v.toBinary64 = .ok x ↔ ∃ plain, v.plainText? = some plain ∧ FloatText plain x := by
  obtain ⟨s, rfl⟩ | ⟨o, rfl⟩ := h
  · rw [toBinary64, elim_eq_ok_iff, plainText?, binary64?]
    cases asciiForm? s.toList with
    | none => simp
    | some ascii => exact binary64OfAscii?_eq_some_iff
  · rw [toBinary64, elim_eq_ok_iff]
    exact binary64OfAscii?_eq_some_iff

end Value

end QueryLoom
