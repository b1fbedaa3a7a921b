import Mathlib.Algebra.Order.Field.Basic
import Mathlib.Data.Rat.Floor
import Mathlib.Tactic
import QueryLoom.Proofs.Numbers.Digits
import QueryLoom.Proofs.Numbers.Overflow

/-!
Rounding to the nearest double. Between a multiple of the unit of a fraction's last bit and the next
multiple there are no doubles, so the nearer one of the two is nearest among all of them.
-/

namespace QueryLoom.Binary64

/-- The size of a finite number. -/
def size (mantissa : Nat) (exponent : Int) : ℚ := mantissa * 2 ^ exponent

/-- What a finite number stands for. -/
def value? : Binary64 → Option ℚ
  | .finite negative mantissa exponent =>
      some (if negative then -size mantissa exponent else size mantissa exponent)
  | _ => none

/-- What a number with a sign is rounded to: the double nearest to its size, with as many bits as there is
room for, and of two that are equally near the one with the even mantissa. From the middle between the
greatest double and the power of two above it on, a number is rounded to infinity. -/
inductive RoundsTo (negative : Bool) (x : ℚ) : Binary64 → Prop
  | infinite (hlarge : (overflowThreshold : ℚ) ≤ x) : RoundsTo negative x (.infinite negative)
  | finite {m : Nat} {e : Int} (hless : x < overflowThreshold)
      (hdouble : (finite negative m e).IsDouble) (hbits : 2 ^ 52 ≤ m ∨ e = leastExponent)
      (hnearest : ∀ (y : Binary64) (z : ℚ), y.IsDouble → y.value? = some z →
        |size m e - x| ≤ |z - x|)
      (heven : ∀ (y : Binary64) (z : ℚ), y.IsDouble → y.value? = some z → z ≠ size m e →
        |z - x| = |size m e - x| → m % 2 = 0) :
      RoundsTo negative x (.finite negative m e)

variable {num den : Nat} {x : ℚ}

/-! The bits of a fraction. -/

theorem two_zpow_le {e e' : Int} (h : e ≤ e') : (2 : ℚ) ^ e ≤ 2 ^ e' :=
  zpow_le_zpow_right₀ (by norm_num) h

theorem two_zpow_add_one (e : Int) : (2 : ℚ) ^ (e + 1) = 2 * 2 ^ e := by
  rw [zpow_add_one₀ (by norm_num), mul_comm]

theorem cast_mantissaBound : (mantissaBound : ℚ) = 2 ^ 53 := by
  rw [mantissaBound, Nat.shiftLeft_eq]
  norm_num

/-- A fraction is its whole part and its remainder at the unit that it is divided by. -/
theorem exists_scaledDiv (num : Nat) (hden : 0 < den) (e : Int) :
    ∃ q r d, scaledDiv num den e = (q, r, d) ∧ r < d ∧ (num / den : ℚ) = (q + r / d) * 2 ^ e := by
  obtain ⟨top, htop⟩ : ∃ top, top = num <<< (-e).toNat := ⟨_, rfl⟩
  obtain ⟨bottom, hbottom⟩ : ∃ bottom, bottom = den <<< e.toNat := ⟨_, rfl⟩
  have hpos : 0 < bottom := by
    rw [hbottom, Nat.shiftLeft_eq]
    exact Nat.mul_pos hden (Nat.two_pow_pos _)
  refine ⟨top / bottom, top % bottom, bottom, by rw [scaledDiv, htop, hbottom], Nat.mod_lt _ hpos, ?_⟩
  have hbottomq : (bottom : ℚ) ≠ 0 := by exact_mod_cast hpos.ne'
  have hdenq : (den : ℚ) ≠ 0 := by exact_mod_cast hden.ne'
  have hdivide : ((top / bottom : Nat) : ℚ) + (top % bottom : Nat) / bottom = top / bottom := by
    rw [eq_div_iff hbottomq, add_mul, div_mul_cancel₀ _ hbottomq]
    exact_mod_cast Nat.div_add_mod' top bottom
  rw [hdivide, div_mul_eq_mul_div, div_eq_div_iff hdenq hbottomq, htop, hbottom, Nat.shiftLeft_eq,
    Nat.shiftLeft_eq]
  obtain ⟨n, rfl | rfl⟩ := e.eq_nat_or_neg
  · have hzero : (-(n : Int)).toNat = 0 := by omega
    rw [hzero, Int.toNat_natCast, zpow_natCast]
    push_cast
    ring
  · have hzero : (-(n : Int)).toNat = 0 := by omega
    rw [hzero, neg_neg, Int.toNat_natCast, zpow_neg, zpow_natCast]
    push_cast
    field_simp

theorem remainder_div_bounds {r d : Nat} (hr : r < d) : (0 : ℚ) ≤ r / d ∧ (r / d : ℚ) < 1 := by
  have hd : (0 : ℚ) < d := by exact_mod_cast Nat.zero_lt_of_lt hr
  refine ⟨by positivity, ?_⟩
  rw [div_lt_one hd]
  exact_mod_cast hr

/-- The lengths of a fraction's terms in bits tell its size up to a factor of four. -/
theorem log2_bounds (hnum : 0 < num) (hden : 0 < den) {guess : Int}
    (hguess : guess = (num.log2 : Int) - den.log2 - 53) :
    (2 : ℚ) ^ 52 * 2 ^ guess * den ≤ num ∧ (num : ℚ) < 2 ^ 54 * 2 ^ guess * den := by
  have hlow : (2 : ℚ) ^ num.log2 ≤ num := by exact_mod_cast Nat.log2_self_le hnum.ne'
  have hhigh : (num : ℚ) < 2 ^ (num.log2 + 1) := by exact_mod_cast Nat.lt_log2_self
  have hdenlow : (2 : ℚ) ^ den.log2 ≤ den := by exact_mod_cast Nat.log2_self_le hden.ne'
  have hdenhigh : (den : ℚ) < 2 ^ (den.log2 + 1) := by exact_mod_cast Nat.lt_log2_self
  have hunit : (2 : ℚ) ^ 53 * 2 ^ guess * 2 ^ den.log2 = 2 ^ num.log2 := by
    rw [← zpow_natCast, ← zpow_natCast, ← zpow_natCast, ← zpow_add₀ (by norm_num),
      ← zpow_add₀ (by norm_num), hguess]
    congr 1
    push_cast
    ring
  have hpos : (0 : ℚ) < 2 ^ guess := by positivity
  rw [pow_succ] at hhigh hdenhigh
  constructor
  · nlinarith
  · nlinarith

/-- The whole part at a unit has no more than 53 bits where the fraction is less than `2 ^ 53` units. -/
theorem scaledDiv_lt_iff (num : Nat) (hden : 0 < den) (e : Int) :
    (scaledDiv num den e).1 < mantissaBound ↔ (num / den : ℚ) < 2 ^ 53 * 2 ^ e := by
  obtain ⟨q, r, d, hscaled, hr, hsplit⟩ := exists_scaledDiv num hden e
  obtain ⟨hpart, hpart'⟩ := remainder_div_bounds hr
  have hunit : (0 : ℚ) < 2 ^ e := by positivity
  rw [hscaled, hsplit, mul_lt_mul_iff_left₀ hunit, ← cast_mantissaBound, ← Nat.cast_lt (α := ℚ)]
  dsimp only
  constructor
  · intro h
    have hstep : (q : ℚ) + 1 ≤ mantissaBound := by exact_mod_cast h
    linarith
  · intro h
    linarith

/-- A fraction has 53 bits before the unit of its exponent, or fewer at the least exponent. -/
theorem exponentFor_spec (hnum : 0 < num) (hden : 0 < den) :
    leastExponent ≤ exponentFor num den ∧
      (num / den : ℚ) < 2 ^ 53 * 2 ^ exponentFor num den ∧
      (2 ^ 52 * 2 ^ exponentFor num den ≤ (num / den : ℚ) ∨ exponentFor num den = leastExponent) := by
  obtain ⟨guess, hguess⟩ : ∃ guess : Int, guess = (num.log2 : Int) - den.log2 - 53 := ⟨_, rfl⟩
  obtain ⟨exact, hexact⟩ : ∃ exact, exact =
    if (scaledDiv num den guess).1 < mantissaBound then guess else guess + 1 := ⟨_, rfl⟩
  have hmax : exponentFor num den = max exact leastExponent := by
    rw [hexact, hguess]
    rfl
  have hrange : (2 : ℚ) ^ 52 * 2 ^ exact ≤ num / den ∧ (num / den : ℚ) < 2 ^ 53 * 2 ^ exact := by
    have hdenq : (0 : ℚ) < den := by exact_mod_cast hden
    obtain ⟨hlow, hhigh⟩ := log2_bounds hnum hden hguess
    rw [← le_div_iff₀ hdenq] at hlow
    rw [← div_lt_iff₀ hdenq] at hhigh
    split_ifs at hexact with hfits
    · rw [hexact]
      exact ⟨hlow, (scaledDiv_lt_iff num hden guess).mp hfits⟩
    · rw [scaledDiv_lt_iff num hden, not_lt] at hfits
      rw [hexact, two_zpow_add_one]
      exact ⟨by linarith, by linarith⟩
  rw [hmax]
  rcases le_total leastExponent exact with hle | hle
  · rw [max_eq_left hle]
    exact ⟨hle, hrange.2, .inl hrange.1⟩
  · rw [max_eq_right hle]
    refine ⟨le_refl _, hrange.2.trans_le ?_, .inr rfl⟩
    exact mul_le_mul_of_nonneg_left (two_zpow_le hle) (by positivity)

/-! Between two multiples of a unit. -/

/-- No size of a double lies between a multiple of the unit and the next: with a unit no finer than the
given one it is a multiple itself, and with a finer one it is below all that have 53 bits. -/
theorem size_le_or_le {q m : Nat} {e e' : Int} (hq : 2 ^ 52 ≤ q ∨ e = leastExponent)
    (hm : m < mantissaBound) (he' : leastExponent ≤ e') :
    size m e' ≤ size q e ∨ size (q + 1) e ≤ size m e' := by
  unfold size
  have hunit : (0 : ℚ) < 2 ^ e := by positivity
  rcases le_or_gt e e' with hle | hlt
  · obtain ⟨k, rfl⟩ := Int.le.dest hle
    have hmultiple : (m : ℚ) * 2 ^ (e + (k : Int)) = (m * 2 ^ k : Nat) * 2 ^ e := by
      rw [zpow_add₀ (by norm_num), zpow_natCast]
      push_cast
      ring
    rw [hmultiple, mul_le_mul_iff_left₀ hunit, mul_le_mul_iff_left₀ hunit, Nat.cast_le, Nat.cast_le]
    exact (Nat.lt_or_ge q _).symm
  · have hfull : 2 ^ 52 ≤ q := by
      refine hq.resolve_right ?_
      rintro rfl
      omega
    refine .inl ?_
    have hmq : (m : ℚ) ≤ 2 ^ 53 := by
      rw [← cast_mantissaBound]
      exact_mod_cast hm.le
    have hqq : (2 : ℚ) ^ 52 ≤ q := by exact_mod_cast hfull
    have hstep : (2 : ℚ) * 2 ^ e' ≤ 2 ^ e := by
      rw [← two_zpow_add_one]
      exact two_zpow_le (by omega)
    calc (m : ℚ) * 2 ^ e' ≤ 2 ^ 53 * 2 ^ e' := by gcongr
      _ = 2 ^ 52 * (2 * 2 ^ e') := by ring
      _ ≤ q * 2 ^ e := by gcongr

/-- The same for the doubles of both signs. -/
theorem value_le_or_le {q : Nat} {e : Int} (hq : 2 ^ 52 ≤ q ∨ e = leastExponent) {y : Binary64}
    {z : ℚ} (hy : y.IsDouble) (hz : y.value? = some z) : z ≤ size q e ∨ size (q + 1) e ≤ z := by
  cases y with
  | nan => cases hz
  | infinite negative => cases hz
  | finite negative m e' =>
      obtain ⟨hm, he', -⟩ := hy
      obtain rfl := Option.some.inj hz
      split_ifs
      · have hpos : 0 ≤ size m e' := by
          unfold size
          positivity
        have hpos' : 0 ≤ size q e := by
          unfold size
          positivity
        exact .inl (by linarith)
      · exact size_le_or_le hq hm he'

/-- The mantissa that is nearer, or even if both are equally near. -/
def roundedMantissa (q r d : Nat) : Nat :=
  if d < 2 * r || (2 * r == d && q % 2 == 1) then q + 1 else q

/-- The nearer multiple of the unit is nearest among all numbers that are no more than the one and no
less than the other. -/
theorem roundedMantissa_nearest {q r d : Nat} {e : Int} (hr : r < d) {z : ℚ}
    (hz : z ≤ size q e ∨ size (q + 1) e ≤ z) (hx : x = (q + r / d) * 2 ^ e) :
    |size (roundedMantissa q r d) e - x| ≤ |z - x| ∧
      (z ≠ size (roundedMantissa q r d) e → |z - x| = |size (roundedMantissa q r d) e - x| →
        roundedMantissa q r d % 2 = 0) := by
  have hunit : (0 : ℚ) < 2 ^ e := by positivity
  have hd : (0 : ℚ) < d := by exact_mod_cast Nat.zero_lt_of_lt hr
  obtain ⟨part, hpart⟩ : ∃ part : ℚ, part = r / d * 2 ^ e := ⟨_, rfl⟩
  have hlow : size q e + part = x := by
    rw [hx, hpart, size, add_mul]
  have hhigh : size (q + 1) e = size q e + 2 ^ e := by
    rw [size, size]
    push_cast
    ring
  have hpos : 0 ≤ part := by
    rw [hpart]
    positivity
  have hscaled : part * d = r * 2 ^ e := by
    rw [hpart]
    field_simp
  have hbelow : part < 2 ^ e := by
    have hcast : (r : ℚ) < d := by exact_mod_cast hr
    rw [hpart, div_mul_eq_mul_div, div_lt_iff₀ hd, mul_comm]
    gcongr
  -- the sizes of the two parts are compared by the remainder and the divisor
  have hup : d < 2 * r ↔ (2 : ℚ) ^ e < 2 * part := by
    rw [← mul_lt_mul_iff_left₀ hd, mul_assoc, hscaled, ← mul_assoc, mul_comm (2 ^ e : ℚ),
      mul_lt_mul_iff_left₀ hunit]
    exact_mod_cast Iff.rfl
  have htie : 2 * r = d ↔ 2 * part = (2 : ℚ) ^ e := by
    rw [← mul_left_inj' hd.ne', mul_assoc, hscaled, ← mul_assoc, mul_comm (2 ^ e : ℚ),
      mul_left_inj' hunit.ne']
    exact_mod_cast Iff.rfl
  unfold roundedMantissa
  split_ifs with hnear
  · rw [Bool.or_eq_true, decide_eq_true_eq, Bool.and_eq_true, beq_iff_eq, beq_iff_eq, hup, htie]
      at hnear
    have hself : |size (q + 1) e - x| = 2 ^ e - part := by
      rw [abs_of_nonneg] <;> linarith
    rw [hself]
    rcases hz with hz | hz
    · have hother : |z - x| = x - z := abs_of_nonpos (by linarith) |>.trans (by ring)
      rw [hother]
      refine ⟨?_, fun _ heq => ?_⟩
      · rcases hnear with hmore | ⟨hhalf, -⟩ <;> linarith
      · rcases hnear with hmore | ⟨-, hodd⟩
        · linarith
        · omega
    · have hother : |z - x| = z - x := abs_of_nonneg (by linarith)
      rw [hother]
      exact ⟨by linarith, fun hne heq => absurd (by linarith) hne⟩
  · rw [Bool.or_eq_true, decide_eq_true_eq, Bool.and_eq_true, beq_iff_eq, beq_iff_eq, hup, htie,
      not_or, not_lt, not_and] at hnear
    have hself : |size q e - x| = part := by
      rw [abs_of_nonpos] <;> linarith
    rw [hself]
    rcases hz with hz | hz
    · have hother : |z - x| = x - z := abs_of_nonpos (by linarith) |>.trans (by ring)
      rw [hother]
      exact ⟨by linarith, fun hne heq => absurd (by linarith) hne⟩
    · have hother : |z - x| = z - x := abs_of_nonneg (by linarith)
      rw [hother]
      refine ⟨by linarith [hnear.1], fun _ heq => ?_⟩
      have heven := hnear.2 (by linarith [hnear.1])
      omega

/-- A mantissa is one bit too long from half a unit below the power of two on. -/
theorem roundedMantissa_eq_bound_iff {q r d : Nat} (hq : q < mantissaBound) (hr : r < d) :
    roundedMantissa q r d = mantissaBound ↔ (2 ^ 53 - 1 / 2 : ℚ) ≤ q + r / d := by
  have hbound : mantissaBound = 2 ^ 53 := rfl
  have hd : (0 : ℚ) < d := by exact_mod_cast Nat.zero_lt_of_lt hr
  have hlast : roundedMantissa q r d = mantissaBound ↔ q = 2 ^ 53 - 1 ∧ d ≤ 2 * r := by
    unfold roundedMantissa
    rw [hbound] at hq ⊢
    split_ifs with hup <;>
      simp only [Bool.or_eq_true, decide_eq_true_eq, Bool.and_eq_true, beq_iff_eq] at hup <;> omega
  rw [hlast]
  constructor
  · rintro ⟨rfl, hhalf⟩
    have hcast : (d : ℚ) ≤ 2 * r := by exact_mod_cast hhalf
    have hpart : (1 / 2 : ℚ) ≤ r / d := by
      rw [le_div_iff₀ hd]
      linarith
    push_cast
    linarith
  · intro hle
    have hpart := (remainder_div_bounds hr).2
    have hnext : (2 ^ 53 : ℚ) < q + 2 := by linarith
    have hq' : q = 2 ^ 53 - 1 := by
      have hnat : 2 ^ 53 < q + 2 := by exact_mod_cast hnext
      omega
    have hhalf : (1 / 2 : ℚ) ≤ r / d := by
      rw [hq'] at hle
      push_cast at hle
      linarith
    rw [le_div_iff₀ hd] at hhalf
    refine ⟨hq', ?_⟩
    have hcast : (d : ℚ) ≤ 2 * r := by linarith
    exact_mod_cast hcast

/-! Fractions. -/

theorem cast_overflowThreshold :
    (overflowThreshold : ℚ) = (2 ^ 53 - 1 / 2) * 2 ^ greatestExponent := by
  -- the exponent is given a name, since the power is not to be computed
  obtain ⟨b, hb⟩ : ∃ b, b = 970 := ⟨_, rfl⟩
  have hpower : (2 : ℚ) ^ greatestExponent = 2 * 2 ^ b := by
    have hnext : greatestExponent = (b : Int) + 1 := by
      rw [hb]
      rfl
    rw [hnext, two_zpow_add_one, zpow_natCast]
  have hones : (((1 <<< 54) - 1 : Nat) : ℚ) = 2 ^ 54 - 1 := by
    norm_num [Nat.shiftLeft_eq]
  rw [hpower, overflowThreshold, ← hb, Nat.shiftLeft_eq, Nat.cast_mul, hones]
  push_cast
  ring

theorem ofFraction_of_scaledDiv {q r d : Nat} (negative : Bool) (hnum : num ≠ 0)
    (hscaled : scaledDiv num den (exponentFor num den) = (q, r, d)) :
    ofFraction negative num den =
      if roundedMantissa q r d = mantissaBound then
        if greatestExponent < exponentFor num den + 1 then .infinite negative
        else .finite negative (mantissaBound / 2) (exponentFor num den + 1)
      else if greatestExponent < exponentFor num den then .infinite negative
      else .finite negative (roundedMantissa q r d) (exponentFor num den) := by
  have hne : ¬(num == 0) = true := by simpa using hnum
  have hform : ofFraction negative num den =
      let carried :=
        if roundedMantissa q r d == mantissaBound then (mantissaBound / 2, exponentFor num den + 1)
        else (roundedMantissa q r d, exponentFor num den)
      if greatestExponent < carried.2 then .infinite negative
      else .finite negative carried.1 carried.2 := by
    unfold ofFraction
    dsimp only
    rw [if_neg hne, hscaled]
    rfl
  rw [hform]
  by_cases hcarry : roundedMantissa q r d = mantissaBound
  · simp [hcarry]
  · simp [hcarry]

theorem roundsTo_zero (negative : Bool) (hpos : 0 ≤ x) (hless : 2 * x < size 1 leastExponent) :
    RoundsTo negative x (zero negative) := by
  have hsize : size 0 leastExponent = 0 := by simp [size]
  have hzero : |size 0 leastExponent - x| = x := by
    rw [hsize, zero_sub, abs_neg, abs_of_nonneg hpos]
  have hthreshold : size 1 leastExponent ≤ overflowThreshold := by
    rw [cast_overflowThreshold, size, Nat.cast_one, one_mul]
    have hstep : (2 : ℚ) ^ leastExponent ≤ 2 ^ greatestExponent := two_zpow_le (by decide)
    have hunit : (0 : ℚ) < 2 ^ greatestExponent := by positivity
    linarith
  refine .finite (by linarith) ⟨by decide, by decide, by decide⟩ (.inr rfl) ?_
    fun _ _ _ _ _ _ => rfl
  intro y z hy hz
  rw [hzero]
  rcases value_le_or_le (q := 0) (.inr rfl) hy hz with hle | hle
  · rw [hsize] at hle
    rw [abs_of_nonpos (by linarith)]
    linarith
  · rw [abs_of_nonneg (by linarith)]
    linarith

/-- The bits of a fraction at its exponent. -/
theorem exists_bits (hnum : 0 < num) (hden : 0 < den) :
    ∃ q r d, scaledDiv num den (exponentFor num den) = (q, r, d) ∧ r < d ∧ q < mantissaBound ∧
      (2 ^ 52 ≤ q ∨ exponentFor num den = leastExponent) ∧
      (num / den : ℚ) = (q + r / d) * 2 ^ exponentFor num den := by
  obtain ⟨-, hhigh, hlow⟩ := exponentFor_spec hnum hden
  obtain ⟨q, r, d, hscaled, hr, hx⟩ := exists_scaledDiv num hden (exponentFor num den)
  have hunit : (0 : ℚ) < 2 ^ exponentFor num den := by positivity
  obtain ⟨hpart, hpart'⟩ := remainder_div_bounds hr
  refine ⟨q, r, d, hscaled, hr, ?_, hlow.imp_left fun hle => ?_, hx⟩
  · rw [hx, mul_lt_mul_iff_left₀ hunit, ← cast_mantissaBound] at hhigh
    have hcast : (q : ℚ) < mantissaBound := by linarith
    exact_mod_cast hcast
  · rw [hx, mul_le_mul_iff_left₀ hunit] at hle
    have hcast : (2 ^ 52 : ℚ) < q + 1 := by linarith
    exact Nat.lt_succ_iff.mp (by exact_mod_cast hcast)

/-- A fraction is rounded to the nearest double. -/
theorem roundsTo_ofFraction (negative : Bool) (num : Nat) (hden : 0 < den) :
    RoundsTo negative (num / den) (ofFraction negative num den) := by
  rcases Nat.eq_zero_or_pos num with rfl | hnum
  · refine roundsTo_zero negative (by simp) ?_
    rw [Nat.cast_zero, zero_div, mul_zero, size]
    positivity
  · obtain ⟨hleast, hhigh, hlow⟩ := exponentFor_spec hnum hden
    obtain ⟨q, r, d, hscaled, hr, hq, hbits, hx⟩ := exists_bits hnum hden
    rw [ofFraction_of_scaledDiv negative hnum.ne' hscaled]
    generalize exponentFor num den = e at hleast hhigh hlow hbits hx ⊢
    generalize (num / den : ℚ) = x at hhigh hlow hx ⊢
    have hnear : ∀ (y : Binary64) (z : ℚ), y.IsDouble → y.value? = some z → _ := fun y z hy hz =>
      roundedMantissa_nearest hr (value_le_or_le hbits hy hz) hx
    have hcarries : roundedMantissa q r d = mantissaBound ↔ (2 ^ 53 - 1 / 2) * 2 ^ e ≤ x := by
      rw [roundedMantissa_eq_bound_iff hq hr, hx, mul_le_mul_iff_left₀ (by positivity)]
    have hscale : ∀ {a b : Int}, a ≤ b → (2 ^ 53 - 1 / 2 : ℚ) * 2 ^ a ≤ (2 ^ 53 - 1 / 2) * 2 ^ b :=
      fun h => mul_le_mul_of_nonneg_left (two_zpow_le h) (by norm_num)
    have hunit : (0 : ℚ) < 2 ^ greatestExponent := by positivity
    split_ifs with hcarry hlarge hlarge
    · refine .infinite ?_
      rw [cast_overflowThreshold]
      exact (hscale (Int.lt_add_one_iff.mp hlarge)).trans (hcarries.mp hcarry)
    · -- the carried mantissa is halved, and the size stays
      have hsame : size (mantissaBound / 2) (e + 1) = size (roundedMantissa q r d) e := by
        rw [hcarry, size, size, two_zpow_add_one, cast_mantissaBound]
        norm_num [mantissaBound, Nat.shiftLeft_eq]
        ring
      have hless : x < overflowThreshold := by
        have hstep := two_zpow_le (Int.not_lt.mp hlarge)
        rw [two_zpow_add_one] at hstep
        rw [cast_overflowThreshold]
        linarith
      refine .finite hless ⟨by decide, by omega, Int.not_lt.mp hlarge⟩ (.inl (by decide)) ?_
        fun _ _ _ _ _ _ => rfl
      rw [hsame]
      exact fun y z hy hz => (hnear y z hy hz).1
    · refine .infinite ?_
      have hbits' := hlow.resolve_right (by rintro rfl; exact absurd hlarge (by decide))
      have hstep := two_zpow_le (Int.add_one_le_iff.mpr hlarge)
      rw [two_zpow_add_one] at hstep
      rw [cast_overflowThreshold]
      linarith
    · have hstep : q ≤ roundedMantissa q r d ∧ roundedMantissa q r d ≤ q + 1 := by
        unfold roundedMantissa
        split_ifs <;> omega
      have hfits : roundedMantissa q r d < mantissaBound := by omega
      have hless : x < overflowThreshold := by
        rw [hcarries, not_le] at hcarry
        rw [cast_overflowThreshold]
        exact hcarry.trans_le (hscale (Int.not_lt.mp hlarge))
      exact .finite hless ⟨hfits, hleast, Int.not_lt.mp hlarge⟩ (hbits.imp_left (·.trans hstep.1))
        (fun y z hy hz => (hnear y z hy hz).1) fun y z hy hz => (hnear y z hy hz).2

/-! Decimal numbers. -/

theorem pow_length_toDigits {n : Nat} (hn : 0 < n) :
    10 ^ ((Nat.toDigits 10 n).length - 1) ≤ n ∧ n < 10 ^ (Nat.toDigits 10 n).length := by
  have hpos : 0 < (Nat.toDigits 10 n).length := Nat.length_toDigits_pos
  have hbound : ∀ k, 0 < k → ((Nat.toDigits 10 n).length ≤ k ↔ n < 10 ^ k) := fun k hk =>
    Nat.length_toDigits_le_iff (by decide) hk
  refine ⟨?_, (hbound _ hpos).mp (le_refl _)⟩
  rcases Nat.eq_zero_or_pos ((Nat.toDigits 10 n).length - 1) with hone | hmore
  · rw [hone, pow_zero]
    exact hn
  · rw [← not_lt, ← hbound _ hmore]
    omega

theorem two_pow_lt_ten_pow : (2 : ℚ) ^ 1076 < 10 ^ 400 := by
  calc (2 : ℚ) ^ 1076 < 2 ^ 1100 := pow_lt_pow_right₀ (by norm_num) (by norm_num)
    _ = (2 ^ 11) ^ 100 := (pow_mul 2 11 100)
    _ ≤ (10 ^ 4) ^ 100 := pow_le_pow_left₀ (by norm_num) (by norm_num) 100
    _ = 10 ^ 400 := (pow_mul 10 4 100).symm

/-- Where the point stands bounds the size of a decimal number. -/
theorem decimal_bounds {coefficient : Nat} (hpos : 0 < coefficient) (exponent : Int) :
    let magnitude : Int := (Nat.toDigits 10 coefficient).length + exponent
    (10 : ℚ) ^ (magnitude - 1) ≤ coefficient * 10 ^ exponent ∧
      (coefficient * 10 ^ exponent : ℚ) < 10 ^ magnitude := by
  intro magnitude
  obtain ⟨hlow, hhigh⟩ := pow_length_toDigits hpos
  have hlength : 0 < (Nat.toDigits 10 coefficient).length := Nat.length_toDigits_pos
  have hunit : (0 : ℚ) < 10 ^ exponent := by positivity
  constructor
  · have hsplit : magnitude - 1 = ((Nat.toDigits 10 coefficient).length - 1 : Nat) + exponent := by
      omega
    rw [hsplit, zpow_add₀ (by norm_num), zpow_natCast, mul_le_mul_iff_left₀ hunit]
    exact_mod_cast hlow
  · rw [zpow_add₀ (by norm_num), zpow_natCast, mul_lt_mul_iff_left₀ hunit]
    exact_mod_cast hhigh

theorem two_zpow_lt_ten_zpow : (2 : ℚ) ^ (greatestExponent + 53) < 10 ^ ((400 : Nat) : Int) := by
  have hexponent : greatestExponent + 53 = ((1024 : Nat) : Int) := rfl
  rw [hexponent, zpow_natCast, zpow_natCast]
  exact lt_of_le_of_lt (pow_le_pow_right₀ (by norm_num) (by norm_num)) two_pow_lt_ten_pow

theorem ten_zpow_lt_two_zpow : (10 : ℚ) ^ (-((400 : Nat) : Int)) < 2 ^ (leastExponent - 2) := by
  have hexponent : leastExponent - 2 = -((1076 : Nat) : Int) := rfl
  rw [hexponent, zpow_neg, zpow_neg, zpow_natCast, zpow_natCast]
  exact inv_strictAnti₀ (by positivity) two_pow_lt_ten_pow

/-- A number in decimal notation as a fraction. -/
theorem decimal_eq_div (coefficient : Nat) (exponent : Int) : (coefficient * 10 ^ exponent : ℚ) =
    (coefficient * Nat.pow 10 exponent.toNat : Nat) / (Nat.pow 10 (-exponent).toNat : Nat) := by
  rw [Nat.pow_eq, Nat.pow_eq]
  push_cast
  obtain ⟨n, rfl | rfl⟩ := exponent.eq_nat_or_neg
  · simp
  · simp [div_eq_mul_inv]

/-- A number in decimal notation is rounded to the nearest double. -/
theorem roundsTo_ofDecimal (negative : Bool) (coefficient : Nat) (exponent : Int) :
    RoundsTo negative (coefficient * 10 ^ exponent) (ofDecimal negative coefficient exponent) := by
  have hten : ∀ {a b : Int}, a ≤ b → (10 : ℚ) ^ a ≤ 10 ^ b := fun h =>
    zpow_le_zpow_right₀ (by norm_num) h
  unfold ofDecimal
  dsimp only
  split_ifs with hsmall hlarge
  · refine roundsTo_zero negative (by positivity) ?_
    rw [size, Nat.cast_one, one_mul]
    rcases Nat.eq_zero_or_pos coefficient with rfl | hpos
    · rw [Nat.cast_zero, zero_mul, mul_zero]
      positivity
    · rw [Bool.or_eq_true, beq_iff_eq, decide_eq_true_eq] at hsmall
      have hless := (decimal_bounds hpos exponent).2.trans_le
        (hten (hsmall.resolve_left hpos.ne').le)
      have hhalf : (2 : ℚ) ^ (leastExponent - 2 + 1) = 2 * 2 ^ (leastExponent - 2) :=
        two_zpow_add_one _
      have hstep : (2 : ℚ) ^ (leastExponent - 2 + 1) ≤ 2 ^ leastExponent := two_zpow_le (by decide)
      linarith [hless.trans ten_zpow_lt_two_zpow]
  · rw [Bool.or_eq_true, beq_iff_eq, decide_eq_true_eq, not_or] at hsmall
    have hmore := (decimal_bounds (Nat.pos_of_ne_zero hsmall.1) exponent).1
    have hreach : (10 : ℚ) ^ ((400 : Nat) : Int) ≤ _ := hten (Int.le_sub_one_of_lt hlarge)
    refine .infinite (le_trans ?_ ((two_zpow_lt_ten_zpow.le.trans hreach).trans hmore))
    have hunit : (0 : ℚ) < 2 ^ greatestExponent := by positivity
    rw [cast_overflowThreshold, zpow_add₀ (by norm_num), mul_comm]
    refine mul_le_mul_of_nonneg_left ?_ hunit.le
    norm_num
  · rw [decimal_eq_div]
    exact roundsTo_ofFraction negative _ (Nat.pow_pos (by decide))

end QueryLoom.Binary64
