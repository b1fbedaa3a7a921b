import QueryLoom.Proofs.Numbers.Notation
import QueryLoom.Proofs.Numbers.Truncation
import QueryLoom.Proofs.Results.Coercions

/-!
Cells of columns of whole numbers. A decimal number and the text of a whole number keep all their digits.
The text of any other number is rounded to a double before it is cut off at the point, so that it keeps
its whole part only as long as its digits fit into 53 bits.
-/

namespace QueryLoom

namespace Coercion

open Reading Binary64

variable {nesting : Nat} {v : Value} {plain : List Char} {negative : Bool} {coefficient : Nat}
  {exponent : Int}

theorem leaves_coerce_int {i : Int} (column : String) (h : toInt? v = some i) :
    (coerce nesting .int column v).Leaves (.ok (.int i)) [] :=
  leaves_coerce_of_represents column not_false (.int (isWhole_of_toInt? h))

theorem truncation_signed (negative : Bool) (n : Nat) :
    truncation (Decimal.value negative n 0) = signed negative n := by
  have hnat : truncation (n : ℚ) = n := by
    exact_mod_cast truncation_intCast n
  cases negative with
  | false => simpa [Decimal.value, signed] using hnat
  | true => simpa [Decimal.value, signed, truncation_neg] using hnat

/-- The text of a whole number is read without a detour. -/
theorem toInt?_of_wholeText (hplain : v.plainText? = some plain)
    (hnumber : NumberText plain negative coefficient exponent) (hwhole : IsWholeText plain) :
    toInt? v = some (truncation (Decimal.value negative coefficient exponent)) := by
  obtain ⟨negative', count, n, htext, hlimit⟩ := hwhole
  obtain ⟨rfl, rfl, rfl⟩ := hnumber.unique htext.numberText
  have hread := (Value.toWhole_eq_ok_iff (Value.isWritten_of_plainText? hplain)).mpr
    ⟨plain, _, _, _, hplain, htext, hlimit, rfl⟩
  rw [toInt?, hread, truncation_signed]

/-- The text of any other number is read as a double. -/
theorem toInt?_of_numberText (hplain : v.plainText? = some plain)
    (hnumber : NumberText plain negative coefficient exponent) (hwhole : ¬IsWholeText plain) :
    toInt? v = (ofDecimal negative coefficient exponent).value?.map truncation := by
  have hwritten := Value.isWritten_of_plainText? hplain
  have hfloat := (Value.toBinary64_eq_ok_iff hwritten).mpr ⟨plain, hplain, .number hnumber⟩
  rw [toInt?, ← truncate_fraction?]
  split
  · next i hi =>
      obtain ⟨plain', negative, count, n, hplain', htext, hlimit, -⟩ :=
        (Value.toWhole_eq_ok_iff hwritten).mp hi
      obtain rfl := Option.some.inj (hplain.symm.trans hplain')
      exact absurd ⟨negative, count, n, htext, hlimit⟩ hwhole
  · rw [hfloat]

theorem ten_pow_lt_overflowThreshold : (10 : ℚ) ^ 300 < overflowThreshold := by
  have hexponent : greatestExponent = ((971 : Nat) : Int) := rfl
  rw [cast_overflowThreshold, hexponent, zpow_natCast]
  calc (10 : ℚ) ^ 300 = (10 ^ 3) ^ 100 := pow_mul 10 3 100
    _ ≤ (2 ^ 10) ^ 100 := pow_le_pow_left₀ (by norm_num) (by norm_num) 100
    _ = 2 ^ 29 * 2 ^ 971 := by rw [← pow_mul, ← pow_add]
    _ < (2 ^ 53 - 1 / 2) * 2 ^ 971 := mul_lt_mul_of_pos_right (by norm_num) (by positivity)

/-- A number of at most 300 digits before the point is rounded to a finite one. -/
theorem exists_finite_of_roundsTo {x : ℚ} {y : Binary64} (h : RoundsTo negative x y)
    (hless : x < 10 ^ 300) : ∃ m e, y = .finite negative m e := by
  cases h with
  | infinite hlarge => exact absurd (hless.trans ten_pow_lt_overflowThreshold) (not_lt.mpr hlarge)
  | @finite m e => exact ⟨m, e, rfl⟩

/-- Digits that fit into 53 bits keep the whole part of their number. -/
theorem truncation_of_few_digits (hdigits : coefficient * 10 ^ exponent.toNat < 2 ^ 53) {m : Nat}
    {e : Int} (h : RoundsTo negative (coefficient * 10 ^ exponent) (.finite negative m e)) :
    (finite negative m e).value?.map truncation =
      some (truncation (Decimal.value negative coefficient exponent)) := by
  have hpos : 0 ≤ size m e := by
    unfold size
    positivity
  have hpos' : (0 : ℚ) ≤ coefficient * 10 ^ exponent := by positivity
  have hfloor : ⌊size m e⌋ = ⌊(coefficient * 10 ^ exponent : ℚ)⌋ := by
    rw [decimal_eq_div] at h ⊢
    exact floor_size_of_roundsTo hdigits (Nat.pow_pos (by decide)) h
  have htruncation : truncation (size m e) = truncation (coefficient * 10 ^ exponent) := by
    rw [truncation, truncation, if_pos hpos, if_pos hpos', hfloor]
  cases negative with
  | false => exact congrArg some htruncation
  | true =>
      rw [value?, Decimal.value, Option.map_some, if_pos rfl, if_pos rfl, truncation_neg,
        truncation_neg, htruncation]

/-- Under a declared whole number, the texts of numbers with at most 300 digits before the point, and all
finite decimals. A decimal and the text of a whole number become the number that they denote, cut off at
the point, and so does any other text whose digits fit into 53 bits. The text of a number with more digits
becomes the whole part of the double nearest to it. Blanks around a number, underscores between its digits
and the script of the digits do not count. -/
theorem int_coercion_truncates (column : String) :
    (∀ plain negative coefficient exponent, NumberText plain negative coefficient exponent →
      (Value.str (String.ofList plain)).plainText? = some plain) ∧
    (∀ v plain negative coefficient exponent, v.plainText? = some plain →
      NumberText plain negative coefficient exponent → (coefficient * 10 ^ exponent : ℚ) < 10 ^ 300 →
      (IsWholeText plain ∨ coefficient * 10 ^ exponent.toNat < 2 ^ 53 →
        (coerce nesting .int column v).Leaves
          (.ok (.int (truncation (Decimal.value negative coefficient exponent)))) []) ∧
      (¬IsWholeText plain → ∃ x y, RoundsTo negative (coefficient * 10 ^ exponent) x ∧
        x.value? = some y ∧ (coerce nesting .int column v).Leaves (.ok (.int (truncation y))) [])) ∧
    ∀ negative coefficient exponent,
      (coerce nesting .int column (.decimal (.finite negative coefficient exponent))).Leaves
        (.ok (.int (truncation (Decimal.value negative coefficient exponent)))) [] := by
  refine ⟨fun plain negative coefficient exponent hnumber => ?_,
    fun v plain negative coefficient exponent hplain hnumber hsize => ?_,
    fun negative coefficient exponent => ?_⟩
  · obtain ⟨hascii, hplain⟩ := plain?_of_chars hnumber.chars
    rw [Value.plainText?, String.toList_ofList, hascii]
    exact hplain
  · have hrounds := roundsTo_ofDecimal negative coefficient exponent
    obtain ⟨m, e, hfinite⟩ := exists_finite_of_roundsTo hrounds hsize
    have hdouble : ¬IsWholeText plain → toInt? v = (finite negative m e).value?.map truncation := by
      intro hwhole
      rw [toInt?_of_numberText hplain hnumber hwhole, hfinite]
    constructor
    · intro hexact
      refine leaves_coerce_int column ?_
      by_cases hwhole : IsWholeText plain
      · exact toInt?_of_wholeText hplain hnumber hwhole
      · rw [hdouble hwhole]
        rw [hfinite] at hrounds
        exact truncation_of_few_digits (hexact.resolve_left hwhole) hrounds
    · intro hwhole
      exact ⟨_, _, hrounds, hfinite ▸ rfl, leaves_coerce_int column (hdouble hwhole)⟩
  · refine leaves_coerce_int column ?_
    rw [toInt?_decimal, Decimal.truncate_fraction?]

theorem int_coercion_truncates_of_text :
    NumberText "-3.9".toList true 39 (-1) ∧
      (coerce Json.usualNesting .int "age" (.str "-3.9")).Leaves (.ok (.int (-3))) [] := by
  obtain ⟨hplain, hwritten, -⟩ := int_coercion_truncates "age"
  have hnumber : NumberText "-3.9".toList true 39 (-1) := numberText_iff.mpr ⟨rfl, rfl⟩
  have htext : (Value.str "-3.9").plainText? = some "-3.9".toList := by
    have htext := hplain _ _ _ _ hnumber
    rwa [String.ofList_toList] at htext
  have hten : (10 : ℚ) ≤ 10 ^ 300 := le_self_pow₀ (by norm_num) (by norm_num)
  have hless : ((39 : Nat) * 10 ^ (-1 : Int) : ℚ) < 10 ^ 300 := lt_of_lt_of_le (by norm_num) hten
  have hvalue : truncation (Decimal.value true 39 (-1)) = -3 := by
    norm_num [truncation, Decimal.value]
  obtain ⟨hexact, -⟩ := hwritten _ _ _ _ _ htext hnumber hless
  rw [hvalue] at hexact
  exact ⟨hnumber, hexact (.inr (by decide))⟩

/-- The text of a number with nineteen digits becomes the whole number above its whole part. -/
theorem digits_of_text_are_lost :
    NumberText "12345678901234567.89".toList false 1234567890123456789 (-2) ∧
      truncation (Decimal.value false 1234567890123456789 (-2)) = 12345678901234567 ∧
      (coerce Json.usualNesting .int "amount" (.str "12345678901234567.89")).Leaves
        (.ok (.int 12345678901234568)) [] := by
  refine ⟨numberText_iff.mpr ⟨rfl, rfl⟩, ?_, leaves_coerce_int _ ?_⟩
  · norm_num [truncation, Decimal.value]
  · decide +kernel

end Coercion

end QueryLoom
