import Mathlib.Tactic.Common
import Mathlib.Tactic.Linarith
import QueryLoom.Value.Convert

/-!
Whole numbers that are too large. Rounding a whole number to 53 bits leaves the range of floating point
numbers exactly from the middle between the greatest finite number and the power of two above it: a
number in the middle is a tie, and the mantissa above it is the even one.
-/

namespace QueryLoom

namespace Binary64

variable {n : Nat}

/-- A whole number other than zero has its 53 bits at the exponent of its last bit that is kept. -/
theorem exponentFor_whole (hn : n ≠ 0) : exponentFor n 1 = (n.log2 : Int) - 52 := by
  have hlow : 2 ^ n.log2 ≤ n := Nat.log2_self_le hn
  have hone : Nat.log2 1 = 0 := by decide
  have hwide : ¬(scaledDiv n 1 ((n.log2 : Int) - (Nat.log2 1 : Nat) - 53)).1 < mantissaBound := by
    rw [hone, Nat.not_lt, scaledDiv, mantissaBound]
    simp only [Nat.shiftLeft_eq, Nat.one_mul]
    rcases Nat.le_total n.log2 53 with hle | hle
    · -- all bits are kept, with zeros behind them
      have hup : (-((n.log2 : Int) - (0 : Nat) - 53)).toNat = 53 - n.log2 := by omega
      have hdown : ((n.log2 : Int) - (0 : Nat) - 53).toNat = 0 := by omega
      rw [hup, hdown, Nat.pow_zero, Nat.div_one]
      calc 2 ^ 53 = 2 ^ n.log2 * 2 ^ (53 - n.log2) := by
            rw [← Nat.pow_add]
            congr 1
            omega
        _ ≤ n * 2 ^ (53 - n.log2) := Nat.mul_le_mul_right _ hlow
    · have hup : (-((n.log2 : Int) - (0 : Nat) - 53)).toNat = 0 := by omega
      have hdown : ((n.log2 : Int) - (0 : Nat) - 53).toNat = n.log2 - 53 := by omega
      rw [hup, hdown, Nat.pow_zero, Nat.mul_one]
      apply (Nat.le_div_iff_mul_le (Nat.two_pow_pos _)).mpr
      calc 2 ^ 53 * 2 ^ (n.log2 - 53) = 2 ^ n.log2 := by
            rw [← Nat.pow_add]
            congr 1
            omega
        _ ≤ n := hlow
  unfold exponentFor
  dsimp only
  rw [if_neg hwide, hone, leastExponent]
  omega

/-- The middle between the greatest finite number and the power of two above it,
`2 ^ 1024 - 2 ^ 970`. -/
def overflowThreshold : Nat := ((1 <<< 54) - 1) <<< 970

/-- The mantissa of a number that fills the last exponent carries exactly from the middle on. -/
theorem carries_iff {half : Nat} (hn : n < 2 ^ 54 * half) :
    (if (2 * half < 2 * (n % (2 * half)) ||
        (2 * (n % (2 * half)) == 2 * half && n / (2 * half) % 2 == 1)) = true
      then n / (2 * half) + 1 else n / (2 * half)) = mantissaBound ↔
      2 ^ 54 * half - half ≤ n := by
  have hhalf : 0 < half := by
    rcases Nat.eq_zero_or_pos half with rfl | hpos
    · simp at hn
    · exact hpos
  have hdivide : 2 * half * (n / (2 * half)) + n % (2 * half) = n := Nat.div_add_mod _ _
  have hrest : n % (2 * half) < 2 * half := Nat.mod_lt _ (by omega)
  have hbound : mantissaBound = 2 ^ 53 := rfl
  generalize n / (2 * half) = q at hdivide ⊢
  generalize n % (2 * half) = r at hdivide hrest ⊢
  have hbelow : q < 2 ^ 53 := by
    by_contra hge
    have hmore : 2 * half * 2 ^ 53 ≤ 2 * half * q := Nat.mul_le_mul_left _ (by omega)
    omega
  have hlast : 2 ^ 54 * half - half ≤ n → q = 2 ^ 53 - 1 := by
    intro hle
    by_contra hne
    have hless : 2 * half * q ≤ 2 * half * (2 ^ 53 - 2) := Nat.mul_le_mul_left _ (by omega)
    omega
  simp only [Bool.or_eq_true, decide_eq_true_eq, Bool.and_eq_true, beq_iff_eq, hbound]
  constructor
  · intro h
    split_ifs at h with hup
    · obtain rfl : q = 2 ^ 53 - 1 := by omega
      omega
    · omega
  · intro hle
    obtain rfl := hlast hle
    split_ifs <;> omega

/-- What a whole number is rounded to, before its exponent is compared with the greatest one. -/
def wholeMantissa (n : Nat) : Nat :=
  let (quotient, remainder, divisor) := scaledDiv n 1 ((n.log2 : Int) - 52)
  if divisor < 2 * remainder || (2 * remainder == divisor && quotient % 2 == 1) then quotient + 1
  else quotient

theorem ofFraction_whole_infinite (negative : Bool) (hn : n ≠ 0) :
    (∃ sign, ofFraction negative n 1 = .infinite sign) ↔
      greatestExponent < (n.log2 : Int) - 52 + (if wholeMantissa n = mantissaBound then 1 else 0) := by
  have hne : ¬(n == 0) = true := by simpa using hn
  have hform : ofFraction negative n 1 =
      let carried :=
        if wholeMantissa n == mantissaBound then (mantissaBound / 2, (n.log2 : Int) - 52 + 1)
        else (wholeMantissa n, (n.log2 : Int) - 52)
      if greatestExponent < carried.2 then .infinite negative
      else .finite negative carried.1 carried.2 := by
    unfold ofFraction
    dsimp only
    rw [if_neg hne, exponentFor_whole hn]
    rfl
  have hinfinite : ∀ (p : Prop) [Decidable p] (m : Nat) (e : Int),
      (∃ sign, (if p then Binary64.infinite negative else .finite negative m e) = .infinite sign) ↔
        p := by
    intro p _ m e
    split_ifs with hp <;> simp [hp]
  rw [hform, hinfinite]
  by_cases hfull : wholeMantissa n = mantissaBound
  · simp [hfull]
  · simp [hfull]

/-- A whole number has no floating point number exactly from the middle on. -/
theorem ofFraction_whole (negative : Bool) (n : Nat) :
    (∃ sign, ofFraction negative n 1 = .infinite sign) ↔ overflowThreshold ≤ n := by
  -- the powers of two are taken apart by hand, since none of them can be computed with
  obtain ⟨b, hb⟩ : ∃ b, b = 970 := ⟨_, rfl⟩
  obtain ⟨half, hhalf⟩ : ∃ half, half = 2 ^ b := ⟨_, rfl⟩
  have hpos : 0 < half := hhalf ▸ Nat.two_pow_pos b
  have hscale : ∀ k, 2 ^ (b + k) = 2 ^ k * half := fun k => by
    rw [hhalf, Nat.pow_add, Nat.mul_comm]
  have hthreshold : overflowThreshold = 2 ^ 54 * half - half := by
    rw [overflowThreshold, Nat.shiftLeft_eq, Nat.shiftLeft_eq, Nat.one_mul, ← hb, ← hhalf,
      Nat.sub_mul, Nat.one_mul]
  by_cases hn : n = 0
  · subst hn
    have hzero : ∀ sign, ofFraction negative 0 1 ≠ .infinite sign := fun sign h => by cases h
    simp only [hzero, exists_false, false_iff, Nat.not_le]
    omega
  · have hlow : 2 ^ n.log2 ≤ n := Nat.log2_self_le hn
    have hhigh : n < 2 ^ (n.log2 + 1) := Nat.lt_log2_self
    rw [ofFraction_whole_infinite negative hn, hthreshold, greatestExponent]
    rcases Nat.lt_trichotomy n.log2 (b + 53) with hless | hlast | hmore
    · -- the exponent stays in range even if the mantissa carries
      have hsmall : n < 2 ^ 53 * half := by
        calc n < 2 ^ (n.log2 + 1) := hhigh
          _ ≤ 2 ^ (b + 53) := Nat.pow_le_pow_right (by decide) (by omega)
          _ = 2 ^ 53 * half := hscale 53
      constructor
      · intro h
        split_ifs at h <;> omega
      · omega
    · have hwide : n < 2 ^ 54 * half := by
        rwa [hlast, Nat.add_assoc, hscale] at hhigh
      have hcarries : wholeMantissa n = mantissaBound ↔ 2 ^ 54 * half - half ≤ n := by
        have hup : (-((n.log2 : Int) - 52)).toNat = 0 := by omega
        have hdown : ((n.log2 : Int) - 52).toNat = b + 1 := by omega
        have hshift : scaledDiv n 1 ((n.log2 : Int) - 52) =
            (n / (2 * half), n % (2 * half), 2 * half) := by
          rw [scaledDiv, hup, hdown, Nat.shiftLeft_zero, Nat.shiftLeft_eq, Nat.one_mul, hscale,
            Nat.pow_one]
        rw [wholeMantissa, hshift]
        exact carries_iff hwide
      rw [← hcarries]
      constructor
      · intro h
        by_contra hfull
        rw [if_neg hfull] at h
        omega
      · intro hfull
        rw [if_pos hfull]
        omega
    · have hlarge : 2 ^ 54 * half ≤ n := by
        calc 2 ^ 54 * half = 2 ^ (b + 54) := (hscale 54).symm
          _ ≤ 2 ^ n.log2 := Nat.pow_le_pow_right (by decide) (by omega)
          _ ≤ n := hlow
      constructor
      · omega
      · intro _
        split_ifs <;> omega

/-- A whole number of either sign has no floating point number exactly from the middle on. -/
theorem ofInt_infinite_iff (i : Int) :
    (∃ sign, ofInt i = .infinite sign) ↔ overflowThreshold ≤ i.natAbs :=
  ofFraction_whole _ _

end Binary64

end QueryLoom
