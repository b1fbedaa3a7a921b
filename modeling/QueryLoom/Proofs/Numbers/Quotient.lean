import Mathlib.Tactic.Common
import Mathlib.Tactic.Linarith
import QueryLoom.Database.Chunks

/-!
How many chunks there are. The number of rows is divided by the size of a chunk in floating point
numbers, and the quotient is rounded up. Rounding to the nearest number could move a quotient to the
whole number below it, but as long as the rows can be counted exactly it does not: a quotient that is
not whole is further away from the whole numbers than rounding moves it.
-/

namespace QueryLoom

/-- The least whole number that is not less than a quotient. -/
theorem Fraction.ceiling_eq {top bottom c : Nat} (hlow : c * bottom < top + bottom)
    (hhigh : top ≤ c * bottom) (hpos : 0 < bottom) : Fraction.ceiling ⟨top, bottom⟩ = c := by
  have hbottom : (0 : Int) < bottom := by omega
  have hdiv : (-(top : Int)) / (bottom : Int) = -c := by
    apply Int.le_antisymm
    · have hlt : -(top : Int) < (-c + 1) * bottom := by
        rw [Int.add_mul, Int.neg_mul]
        have hcast : ((c * bottom : Nat) : Int) < top + bottom := by exact_mod_cast hlow
        push_cast at hcast
        omega
      exact Int.lt_add_one_iff.mp (Int.ediv_lt_of_lt_mul hbottom hlt)
    · apply Int.le_ediv_of_mul_le hbottom
      rw [Int.neg_mul]
      have hcast : (top : Int) ≤ ((c * bottom : Nat) : Int) := by exact_mod_cast hhigh
      push_cast at hcast
      omega
  rw [Fraction.ceiling, Int.fdiv_eq_ediv_of_nonneg _ (Int.natCast_nonneg _), hdiv, Int.neg_neg]

namespace Binary64

variable {num den : Nat}

/-- A quotient of numbers with at most 53 bits has a mantissa of 53 bits at its exponent, which is not
positive. -/
theorem exponentFor_eq (hden : 0 < den) (hle : den ≤ num) (hnum : num < 2 ^ 53) :
    ∃ k : Nat, exponentFor num den = -k ∧ 2 ^ 52 * den ≤ num * 2 ^ k := by
  have hlarge : 2 ^ num.log2 ≤ num := Nat.log2_self_le (by omega)
  have hsmall : den < 2 ^ (den.log2 + 1) := Nat.lt_log2_self
  have hbits : num.log2 < 53 := (Nat.log2_lt (by omega)).mpr hnum
  have horder : den.log2 ≤ num.log2 := by
    rw [Nat.le_log2 (by omega)]
    exact Nat.le_trans (Nat.log2_self_le (by omega)) hle
  obtain ⟨g, hg⟩ : ∃ g, g = 53 + den.log2 - num.log2 := ⟨_, rfl⟩
  have hguess : (num.log2 : Int) - den.log2 - 53 = -g := by omega
  have hscaled : (scaledDiv num den (-g)).1 = num * 2 ^ g / den := by
    simp [scaledDiv, Nat.shiftLeft_eq]
  unfold exponentFor
  dsimp only
  rw [hguess, hscaled]
  split_ifs with hfits
  · refine ⟨g, by rw [leastExponent]; omega, ?_⟩
    have hpower : 2 ^ 52 * 2 ^ (den.log2 + 1) = 2 ^ num.log2 * 2 ^ g := by
      rw [← Nat.pow_add, ← Nat.pow_add]
      congr 1
      omega
    calc 2 ^ 52 * den ≤ 2 ^ 52 * 2 ^ (den.log2 + 1) := Nat.mul_le_mul_left _ hsmall.le
      _ = 2 ^ num.log2 * 2 ^ g := hpower
      _ ≤ num * 2 ^ g := Nat.mul_le_mul_right _ hlarge
  · refine ⟨g - 1, by rw [leastExponent]; omega, ?_⟩
    have hwide : 2 ^ 53 * den ≤ num * 2 ^ g := by
      apply (Nat.le_div_iff_mul_le hden).mp
      exact Nat.le_of_not_lt hfits
    have hhalf : num * 2 ^ g = num * 2 ^ (g - 1) * 2 := by
      rw [Nat.mul_assoc, ← Nat.pow_succ]
      congr 2
      omega
    omega

/-- The mantissa that a quotient is rounded to. -/
def rounded (num den k : Nat) : Nat :=
  let quotient := num * 2 ^ k / den
  let remainder := num * 2 ^ k % den
  if den < 2 * remainder || (2 * remainder == den && quotient % 2 == 1) then quotient + 1
  else quotient

/-- Rounding a mantissa does not move a quotient past a whole number, nor onto the one below it. -/
theorem rounded_between {k c : Nat} (hden : 0 < den) (hnum : num < 2 ^ 53)
    (hk : 2 ^ 52 * den ≤ num * 2 ^ k) (hlow : c * den < num + den) (hhigh : num ≤ c * den) :
    c * 2 ^ k < rounded num den k + 2 ^ k ∧ rounded num den k ≤ c * 2 ^ k := by
  have hscale : 0 < 2 ^ k := Nat.two_pow_pos k
  have hhalf : den < 2 * 2 ^ k := by
    have hlt : num * 2 ^ k < 2 ^ 53 * 2 ^ k := Nat.mul_lt_mul_of_pos_right hnum hscale
    omega
  have hdivide : den * (num * 2 ^ k / den) + num * 2 ^ k % den = num * 2 ^ k := Nat.div_add_mod _ _
  have hremainder : num * 2 ^ k % den < den := Nat.mod_lt _ hden
  have habove : num * 2 ^ k ≤ c * 2 ^ k * den := by
    calc num * 2 ^ k ≤ c * den * 2 ^ k := Nat.mul_le_mul_right _ hhigh
      _ = c * 2 ^ k * den := Nat.mul_right_comm _ _ _
  have hbelow : c * 2 ^ k * den + 2 ^ k ≤ num * 2 ^ k + den * 2 ^ k := by
    calc c * 2 ^ k * den + 2 ^ k = (c * den + 1) * 2 ^ k := by
          rw [Nat.add_mul, Nat.one_mul, Nat.mul_right_comm]
      _ ≤ (num + den) * 2 ^ k := Nat.mul_le_mul_right _ hlow
      _ = num * 2 ^ k + den * 2 ^ k := Nat.add_mul _ _ _
  unfold rounded
  dsimp only
  generalize num * 2 ^ k / den = q at hdivide ⊢
  generalize num * 2 ^ k % den = r at hdivide hremainder ⊢
  generalize c * 2 ^ k = top at habove hbelow ⊢
  generalize 2 ^ k = scale at hscale hhalf hdivide habove hbelow ⊢
  -- Only where the quotient meets the whole number below is there something to round.
  have hquotient : q ≤ top := by
    by_contra hgt
    have hmore : den * (top + 1) ≤ den * q := Nat.mul_le_mul_left _ (by omega)
    rw [Nat.mul_add, Nat.mul_one, Nat.mul_comm den top] at hmore
    omega
  have hnear : top ≤ q + scale := by
    by_contra hlt
    have hmore : den * (q + scale + 1) ≤ den * top := Nat.mul_le_mul_left _ (by omega)
    rw [Nat.mul_add, Nat.mul_add, Nat.mul_one, Nat.mul_comm den top] at hmore
    omega
  have hexact : q = top → r = 0 := by
    rintro rfl
    rw [Nat.mul_comm q den] at habove
    omega
  have hrest : top = q + scale → scale ≤ r := by
    rintro rfl
    rw [Nat.add_mul, Nat.mul_comm q den, Nat.mul_comm scale den] at hbelow
    omega
  split_ifs with hup
  · simp only [Bool.or_eq_true, decide_eq_true_eq, Bool.and_eq_true, beq_iff_eq] at hup
    have hless : q ≠ top := fun heq => by
      have := hexact heq
      omega
    omega
  · simp only [Bool.or_eq_true, decide_eq_true_eq, Bool.and_eq_true, beq_iff_eq] at hup
    have hless : top ≠ q + scale := fun heq => by
      have := hrest heq
      omega
    omega

/-- A quotient is its rounded mantissa at its exponent; a mantissa of one bit too many is halved. -/
theorem ofFraction_eq {k : Nat} (hnum : num ≠ 0) (hexponent : exponentFor num den = -k) :
    ofFraction false num den =
      if rounded num den k = mantissaBound then .finite false (mantissaBound / 2) (-k + 1)
      else .finite false (rounded num den k) (-k) := by
  have hscaled : scaledDiv num den (-k) = (num * 2 ^ k / den, num * 2 ^ k % den, den) := by
    simp [scaledDiv, Nat.shiftLeft_eq]
  have hne : ¬ (num == 0) = true := by simpa using hnum
  have hcarry : ¬ greatestExponent < -(k : Int) + 1 := by
    rw [greatestExponent]
    omega
  have hrest : ¬ greatestExponent < -(k : Int) := by
    rw [greatestExponent]
    omega
  have hstep : ofFraction false num den =
      let carried :=
        if rounded num den k == mantissaBound then (mantissaBound / 2, -(k : Int) + 1)
        else (rounded num den k, -(k : Int))
      if greatestExponent < carried.2 then .infinite false
      else .finite false carried.1 carried.2 := by
    unfold ofFraction
    dsimp only
    rw [if_neg hne]
    simp only [hexponent, hscaled]
    rfl
  rw [hstep]
  by_cases hfull : rounded num den k = mantissaBound
  · simp [hfull, hcarry]
  · simp [hfull, hrest]

theorem fraction?_finite (mantissa k : Nat) :
    (finite false mantissa (-k)).fraction? = some ⟨mantissa, 2 ^ k⟩ := by
  simp [fraction?, Nat.shiftLeft_eq]

/-- As long as whole numbers up to a dividend have 53 bits, its quotient by a smaller number is rounded
up to the same whole number in floating point numbers. -/
theorem ceiling_ofFraction {c : Nat} (hden : 0 < den) (hle : den ≤ num) (hnum : num < 2 ^ 53)
    (hlow : c * den < num + den) (hhigh : num ≤ c * den) :
    ∃ m e, ofFraction false num den = .finite false m e ∧
      (finite false m e).fraction?.map Fraction.ceiling = some (c : Int) := by
  obtain ⟨k, hexponent, hk⟩ := exponentFor_eq hden hle hnum
  obtain ⟨hbelow, habove⟩ := rounded_between hden hnum hk hlow hhigh
  rw [ofFraction_eq (by omega) hexponent]
  split_ifs with hfull
  · cases k with
    | zero =>
        have hwhole : 2 ^ 53 * den ≤ c * den := by
          apply Nat.mul_le_mul_right
          simpa [hfull, mantissaBound] using habove
        omega
    | succ j =>
        have hexponent : -((j + 1 : Nat) : Int) + 1 = -(j : Int) := by omega
        rw [hexponent]
        refine ⟨_, _, rfl, ?_⟩
        have hbound : mantissaBound = mantissaBound / 2 * 2 := rfl
        have hdouble : c * 2 ^ (j + 1) = c * 2 ^ j * 2 := by rw [Nat.pow_succ, Nat.mul_assoc]
        rw [hfull, hdouble, Nat.pow_succ] at hbelow
        rw [hfull, hdouble] at habove
        have hhalflow : c * 2 ^ j < mantissaBound / 2 + 2 ^ j := by omega
        have hhalfhigh : mantissaBound / 2 ≤ c * 2 ^ j := by omega
        rw [fraction?_finite, Option.map_some,
          Fraction.ceiling_eq hhalflow hhalfhigh (Nat.two_pow_pos j)]
  · refine ⟨_, _, rfl, ?_⟩
    rw [fraction?_finite, Option.map_some,
      Fraction.ceiling_eq hbelow habove (Nat.two_pow_pos k)]

end Binary64

namespace Database

/-- A number of rows that is below the numbers with more than 53 bits is divided into chunks exactly. -/
theorem chunkCount_int {total size : Nat} (hsize : 0 < size) (hle : size ≤ total)
    (htotal : total < 2 ^ 53) :
    chunkCount (.int total) (.int size) = .ok ((total + size - 1) / size) := by
  have hpieces : size * ((total + size - 1) / size) + (total + size - 1) % size =
      total + size - 1 := Nat.div_add_mod _ _
  have hrest : (total + size - 1) % size < size := Nat.mod_lt _ hsize
  generalize (total + size - 1) / size = c at hpieces ⊢
  rw [Nat.mul_comm] at hpieces
  obtain ⟨m, e, hquotient, hceiling⟩ := Binary64.ceiling_ofFraction (c := c) hsize hle htotal
    (by omega) (by omega)
  have hquot : quotient (.int total) (.int size) = .ok (.finite false m e) := by
    have hpos : decide ((total : Int) < 0) = false := by simp
    simp only [quotient, Value.integer?, Int.natAbs_natCast, hpos, hquotient]
  rw [chunkCount, hquot]
  change Except.ok (((Binary64.finite false m e).fraction?.map Fraction.ceiling).getD 0).toNat = _
  rw [hceiling]
  rfl

end Database

end QueryLoom
