import Mathlib.Data.Nat.Size
import QueryLoom.Number.Decimal
import QueryLoom.Proofs.Numbers.Nearest

/-!
Whole parts. Numbers are cut off towards zero. The whole part of a fraction can get lost when it is
rounded to a double, but not if its numerator has 53 bits: then the fraction is further away from the
whole number above it than from the double below that number.
-/

namespace QueryLoom

/-- The whole part of a number, without what stands behind the point. -/
def truncation (x : ℚ) : Int := if 0 ≤ x then ⌊x⌋ else ⌈x⌉

theorem truncation_neg (x : ℚ) : truncation (-x) = -truncation x := by
  unfold truncation
  rcases lt_trichotomy x 0 with hneg | rfl | hpos
  · rw [if_pos (by linarith), if_neg (by linarith), Int.floor_neg]
  · simp
  · rw [if_neg (by linarith), if_pos (by linarith), Int.ceil_neg]

theorem truncation_intCast (i : Int) : truncation i = i := by
  rw [truncation]
  split_ifs
  · exact Int.floor_intCast i
  · exact Int.ceil_intCast i

theorem Fraction.truncate_eq {top : Int} {bottom : Nat} (hbottom : 0 < bottom) :
    Fraction.truncate ⟨top, bottom⟩ = truncation (top / bottom) := by
  have hnat : ∀ n : Nat, (Int.tdiv n bottom : Int) = truncation (n / bottom) := by
    intro n
    have hpos : (0 : ℚ) ≤ n / bottom := by positivity
    rw [truncation, if_pos hpos, Int.tdiv_eq_ediv_of_nonneg (Int.natCast_nonneg n)]
    exact (Rat.floor_intCast_div_natCast n bottom).symm
  rw [Fraction.truncate]
  obtain ⟨n, rfl | rfl⟩ := top.eq_nat_or_neg
  · rw [Int.cast_natCast]
    exact hnat n
  · have hneg : ((-(n : Int) : Int) : ℚ) / bottom = -(n / bottom) := by
      push_cast
      ring
    rw [hneg, truncation_neg, Int.neg_tdiv, hnat]

/-- A finite number is cut off where it stands. -/
theorem Binary64.truncate_fraction? (x : Binary64) :
    x.fraction?.map Fraction.truncate = x.value?.map truncation := by
  cases x with
  | nan => rfl
  | infinite negative => rfl
  | finite negative m e =>
      have hbottom : 0 < 1 <<< (-e).toNat := by
        rw [Nat.one_shiftLeft]
        exact Nat.two_pow_pos _
      have hsize : size m e = (m <<< e.toNat : Nat) / (1 <<< (-e).toNat : Nat) := by
        rw [size, Nat.shiftLeft_eq, Nat.one_shiftLeft]
        obtain ⟨n, rfl | rfl⟩ := e.eq_nat_or_neg
        · simp
        · simp [div_eq_mul_inv]
      rw [fraction?, value?, Option.map_some, Option.map_some, Fraction.truncate_eq hbottom, hsize]
      cases negative with
      | false => rfl
      | true => rw [if_pos rfl, if_pos rfl, Int.cast_neg, neg_div]; rfl

/-- The number that a finite decimal stands for. -/
def Decimal.value (negative : Bool) (coefficient : Nat) (exponent : Int) : ℚ :=
  if negative then -(coefficient * 10 ^ exponent) else coefficient * 10 ^ exponent

theorem Decimal.exists_fraction (negative : Bool) (coefficient : Nat) (exponent : Int) :
    ∃ top bottom, 0 < bottom ∧ (finite negative coefficient exponent).fraction? = some ⟨top, bottom⟩ ∧
      value negative coefficient exponent = top / bottom := by
  refine ⟨_, _, Nat.pow_pos (by decide : 0 < 10), rfl, ?_⟩
  rw [value, Binary64.decimal_eq_div]
  cases negative
  · simp
  · simp [neg_div]

theorem Decimal.truncate_fraction? (negative : Bool) (coefficient : Nat) (exponent : Int) :
    (finite negative coefficient exponent).fraction?.map Fraction.truncate =
      some (truncation (value negative coefficient exponent)) := by
  obtain ⟨top, bottom, hbottom, hfraction, hvalue⟩ := exists_fraction negative coefficient exponent
  rw [hfraction, Option.map_some, Fraction.truncate_eq hbottom, hvalue]

/-- A decimal is whole exactly if it stands for a whole number. -/
theorem Decimal.isWhole_iff (negative : Bool) (coefficient : Nat) (exponent : Int) :
    (finite negative coefficient exponent).isWhole = true ↔
      ∃ i : Int, value negative coefficient exponent = i := by
  obtain ⟨top, bottom, hbottom, hfraction, hvalue⟩ := exists_fraction negative coefficient exponent
  have hbottomq : (bottom : ℚ) ≠ 0 := by exact_mod_cast hbottom.ne'
  rw [isWhole, hfraction, hvalue, beq_iff_eq, ← Int.dvd_iff_emod_eq_zero]
  refine exists_congr fun i => ?_
  rw [div_eq_iff hbottomq, mul_comm (i : ℚ)]
  exact_mod_cast Iff.rfl

/-! Whole parts of rounded fractions. -/

namespace Binary64

/-- Below the next whole number there is a double that is closer to it than any fraction with a numerator
of 53 bits. -/
theorem exists_double_below {n : Nat} (hn : n < 2 ^ 53) :
    ∃ scale : Nat, 0 < scale ∧ 2 ^ 53 < 2 * scale * (n + 1) ∧
      ∃ y : Binary64, y.IsDouble ∧ y.value? = some ((n : ℚ) + 1 - 1 / scale) := by
  have hsize : Nat.size n ≤ 53 := Nat.size_le.mpr hn
  obtain ⟨k, hk⟩ : ∃ k, k = Nat.size n := ⟨_, rfl⟩
  rw [← hk] at hsize
  have hupper : n + 1 ≤ 2 ^ k := by
    rw [hk]
    exact Nat.lt_size_self n
  have hsplit : 2 ^ 53 = 2 ^ k * 2 ^ (53 - k) := by
    rw [← pow_add]
    congr 1
    omega
  refine ⟨2 ^ (53 - k), by positivity, ?_, ?_⟩
  · rcases Nat.eq_zero_or_pos n with rfl | hpos
    · rw [hk]
      decide
    · have hkpos : 0 < k := by
        rw [hk]
        exact Nat.size_pos.mpr hpos
      have hlower : 2 ^ (k - 1) ≤ n := by
        rw [← Nat.lt_size]
        omega
      have hdouble : 2 ^ k = 2 * 2 ^ (k - 1) := by
        rw [← pow_succ']
        congr 1
        omega
      have hscale : 0 < 2 ^ (53 - k) := by positivity
      rw [hsplit, hdouble]
      nlinarith
  · refine ⟨finite false ((n + 1) * 2 ^ (53 - k) - 1) (-((53 - k : Nat) : Int)), ⟨?_, ?_, ?_⟩, ?_⟩
    · have hbound : mantissaBound = 2 ^ k * 2 ^ (53 - k) := hsplit
      have hle : (n + 1) * 2 ^ (53 - k) ≤ 2 ^ k * 2 ^ (53 - k) := Nat.mul_le_mul_right _ hupper
      have hpos : 0 < (n + 1) * 2 ^ (53 - k) := by positivity
      omega
    · rw [leastExponent]
      omega
    · rw [greatestExponent]
      omega
    · have hpos : 1 ≤ (n + 1) * 2 ^ (53 - k) := Nat.one_le_iff_ne_zero.mpr (by positivity)
      rw [value?, if_neg Bool.false_ne_true, size, zpow_neg, zpow_natCast, Nat.cast_sub hpos]
      push_cast
      congr 1
      field_simp

variable {negative : Bool} {m : Nat} {e : Int} {x : ℚ}

/-- A fraction whose numerator has 53 bits is further away from the whole number above it than half the
way down to that double. -/
theorem step_lt_of_few_bits {top bottom n scale : Nat} (htop : top < 2 ^ 53) (hscale : 0 < scale)
    (hhigh : top < (n + 1) * bottom) (hbits : 2 ^ 53 < 2 * scale * (n + 1)) :
    (1 / scale : ℚ) < 2 * (n + 1 - top / bottom) := by
  have hbottom : 0 < bottom := Nat.pos_of_mul_pos_left (Nat.zero_lt_of_lt hhigh)
  have hbottomq : (0 : ℚ) < bottom := by exact_mod_cast hbottom
  have hscaleq : (0 : ℚ) < scale := by exact_mod_cast hscale
  by_contra hle
  -- the numerators are compared over the product of the two denominators
  have hproduct : 2 * scale * (n + 1) * bottom ≤ bottom + 2 * scale * top := by
    rw [not_lt, le_div_iff₀ hscaleq] at hle
    have hscaled := mul_le_mul_of_nonneg_right hle hbottomq.le
    have hcancel : (top / bottom : ℚ) * bottom = top := div_mul_cancel₀ _ hbottomq.ne'
    have hcast : (2 * scale * (n + 1) * bottom : ℚ) ≤ bottom + 2 * scale * top := by
      calc (2 * scale * (n + 1) * bottom : ℚ)
          = 2 * (n + 1 - top / bottom) * scale * bottom + 2 * scale * (top / bottom * bottom) := by
            ring
        _ ≤ 1 * bottom + 2 * scale * top := by
            rw [hcancel]
            linarith
        _ = bottom + 2 * scale * top := by ring
    exact_mod_cast hcast
  have hwide : 2 * scale ≤ bottom := by
    have hstep : 2 * scale * (top + 1) ≤ 2 * scale * ((n + 1) * bottom) :=
      Nat.mul_le_mul_left _ hhigh
    rw [← Nat.mul_assoc, Nat.mul_add] at hstep
    omega
  have hmore : 2 ^ 53 * bottom ≤ top * bottom := by
    have hstep : (2 ^ 53 + 1) * bottom ≤ 2 * scale * (n + 1) * bottom :=
      Nat.mul_le_mul_right _ hbits
    have hrest : 2 * scale * top ≤ bottom * top := Nat.mul_le_mul_right _ hwide
    rw [Nat.add_mul, Nat.one_mul] at hstep
    rw [Nat.mul_comm bottom] at hrest
    omega
  exact absurd (Nat.le_of_mul_le_mul_right hmore hbottom) (Nat.not_le.mpr htop)

/-- A fraction whose numerator has 53 bits keeps its whole part when it is rounded. -/
theorem floor_size_of_roundsTo {top bottom : Nat} (htop : top < 2 ^ 53) (hbottom : 0 < bottom)
    (h : RoundsTo negative (top / bottom) (.finite negative m e)) :
    ⌊size m e⌋ = ⌊(top / bottom : ℚ)⌋ := by
  cases h with
  | finite _ _ _ hnearest _ =>
  obtain ⟨n, hn⟩ : ∃ n, n = top / bottom := ⟨_, rfl⟩
  have hbottomq : (0 : ℚ) < bottom := by exact_mod_cast hbottom
  have hhigh : top < (n + 1) * bottom := by
    rw [hn, Nat.mul_comm]
    exact Nat.lt_mul_div_succ top hbottom
  have hlowq : (n : ℚ) ≤ top / bottom := by
    rw [le_div_iff₀ hbottomq]
    exact_mod_cast hn ▸ Nat.div_mul_le_self top bottom
  have hhighq : (top / bottom : ℚ) < n + 1 := by
    rw [div_lt_iff₀ hbottomq]
    exact_mod_cast hhigh
  have hnbits : n < 2 ^ 53 := lt_of_le_of_lt (hn ▸ Nat.div_le_self top bottom) htop
  -- the whole number below is a double itself
  have hge : (n : ℚ) ≤ size m e := by
    by_contra hlt
    have hwhole := hnearest (finite false n 0) n ⟨hnbits, by decide, by decide⟩ (by simp [value?, size])
    rw [abs_of_nonpos (by linarith), abs_of_nonpos (by linarith)] at hwhole
    linarith
  have hlt : size m e < n + 1 := by
    by_contra hge'
    obtain ⟨scale, hscale, hbits, y, hy, hvalue⟩ := exists_double_below hnbits
    have hstep : (0 : ℚ) < 1 / scale := by positivity
    have hfar := step_lt_of_few_bits htop hscale hhigh hbits
    have hbelow := hnearest y _ hy hvalue
    rw [abs_of_nonneg (by linarith)] at hbelow
    rcases le_total ((n : ℚ) + 1 - 1 / scale) (top / bottom) with hle | hle
    · rw [abs_of_nonpos (by linarith)] at hbelow
      linarith
    · rw [abs_of_nonneg (by linarith)] at hbelow
      linarith
  have hfloor : ⌊(top / bottom : ℚ)⌋ = n :=
    Int.floor_eq_iff.mpr ⟨by exact_mod_cast hlowq, by exact_mod_cast hhighq⟩
  rw [hfloor]
  exact Int.floor_eq_iff.mpr ⟨by exact_mod_cast hge, by exact_mod_cast hlt⟩

end Binary64

end QueryLoom
