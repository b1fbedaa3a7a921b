import Mathlib.Data.List.TakeWhile
import Mathlib.Tactic.Common
import Mathlib.Tactic.Linarith
import QueryLoom.Number.Shortest

/-!
The digits of floating point numbers. Of a double seventeen digits always name the number, since
half a unit of the seventeenth digit is less than the distance to the ends of the interval that is
rounded to it; so the search for the shortest digits finds some, and they are not all zero.
-/

namespace QueryLoom.Binary64

/-- Whether a number is one of 64 bits: a finite one has a mantissa of 53 bits at most, and its
exponent is in range. -/
def IsDouble : Binary64 → Prop
  | .finite _ mantissa exponent =>
      mantissa < mantissaBound ∧ leastExponent ≤ exponent ∧ exponent ≤ greatestExponent
  | _ => True

/-! The place of the point. -/

/-- Whether `value / den` is not below `10 ^ point`. -/
def Reaches (value den : Nat) (point : Int) : Prop :=
  den * 10 ^ point.toNat ≤ value * 10 ^ (-point).toNat

theorem ten_pow_le_two_pow : 10 ^ 30103 ≤ 2 ^ 100001 := by decide +kernel

theorem two_pow_le_ten_pow : 2 ^ 100000 ≤ 10 ^ 30103 := by decide +kernel

/-- The estimate of the place of the point by binary digits is less than one place too high. -/
theorem ten_pow_le {n bits : Nat} (h : 100000 * n ≤ 30103 * bits) (hbits : bits ≤ 100000) :
    10 ^ n ≤ 2 ^ (bits + 1) := by
  refine (Nat.pow_le_pow_iff_left (by decide : 100000 ≠ 0)).mp ?_
  calc (10 ^ n) ^ 100000 = 10 ^ (100000 * n) := by rw [← pow_mul, Nat.mul_comm]
    _ ≤ 10 ^ (30103 * bits) := Nat.pow_le_pow_right (by decide) h
    _ = (10 ^ 30103) ^ bits := pow_mul _ _ _
    _ ≤ (2 ^ 100001) ^ bits := Nat.pow_le_pow_left ten_pow_le_two_pow bits
    _ = 2 ^ (100001 * bits) := (pow_mul _ _ _).symm
    _ ≤ 2 ^ ((bits + 1) * 100000) := Nat.pow_le_pow_right (by decide) (by omega)
    _ = (2 ^ (bits + 1)) ^ 100000 := pow_mul _ _ _

theorem two_pow_le {n bits : Nat} (h : 30103 * bits ≤ 100000 * n) : 2 ^ bits ≤ 10 ^ n := by
  refine (Nat.pow_le_pow_iff_left (by decide : 100000 ≠ 0)).mp ?_
  calc (2 ^ bits) ^ 100000 = (2 ^ 100000) ^ bits := by rw [← pow_mul, ← pow_mul, Nat.mul_comm]
    _ ≤ (10 ^ 30103) ^ bits := Nat.pow_le_pow_left two_pow_le_ten_pow bits
    _ = 10 ^ (30103 * bits) := (pow_mul _ _ _).symm
    _ ≤ 10 ^ (n * 100000) := Nat.pow_le_pow_right (by decide) (by omega)
    _ = (10 ^ n) ^ 100000 := pow_mul _ _ _

/-- Two places below the estimate, the quotient of two powers of two reaches the place. -/
theorem reaches_guess {top bottom : Nat} (htop : top ≤ bottom + 100000) :
    Reaches (2 ^ top) (2 ^ bottom) ((((top : Int) - bottom) * 30103).fdiv 100000 - 2) := by
  obtain ⟨guess, hguess⟩ : ∃ guess, guess = (((top : Int) - bottom) * 30103).fdiv 100000 := ⟨_, rfl⟩
  rw [← hguess]
  rw [Int.fdiv_eq_ediv_of_nonneg _ (by decide)] at hguess
  unfold Reaches
  rcases Nat.le_total bottom top with hle | hle
  · -- the quotient is a power of two
    obtain ⟨n, hn⟩ : ∃ n : Nat, guess = n := ⟨guess.toNat, by omega⟩
    have hpower : 10 ^ n ≤ 2 ^ (top - bottom + 1) := ten_pow_le (by omega) (by omega)
    have hsplit : 2 ^ top = 2 ^ bottom * 2 ^ (top - bottom) := by
      rw [← Nat.pow_add]
      congr 1
      omega
    rw [hsplit, Nat.mul_assoc]
    refine Nat.mul_le_mul_left _ ?_
    rcases Nat.le_total n 2 with hsmall | hlarge
    · have hzero : (guess - 2).toNat = 0 := by omega
      rw [hzero]
      exact Nat.mul_pos (Nat.pow_pos (by decide)) (Nat.pow_pos (by decide))
    · have hplace : (guess - 2).toNat = n - 2 := by omega
      have hten : 10 ^ n = 10 ^ (n - 2) * 100 := by
        rw [show (100 : Nat) = 10 ^ 2 from rfl, ← Nat.pow_add]
        congr 1
        omega
      have hzero : (-(guess - 2)).toNat = 0 := by omega
      rw [hplace, hzero, Nat.pow_zero, Nat.mul_one]
      rw [hten, Nat.pow_succ] at hpower
      omega
  · obtain ⟨n, hn⟩ : ∃ n : Nat, guess = -n := ⟨(-guess).toNat, by omega⟩
    have hpower : 2 ^ (bottom - top) ≤ 10 ^ n := two_pow_le (by omega)
    have hsplit : 2 ^ bottom = 2 ^ top * 2 ^ (bottom - top) := by
      rw [← Nat.pow_add]
      congr 1
      omega
    have hplace : (-(guess - 2)).toNat = n + 2 := by omega
    have hzero : (guess - 2).toNat = 0 := by omega
    rw [hsplit, hplace, hzero, Nat.pow_zero, Nat.mul_one]
    refine Nat.mul_le_mul_left _ (hpower.trans ?_)
    exact Nat.pow_le_pow_right (by decide) (by omega)

/-- The place of the point is not too high. -/
theorem reaches_pointOf {value bottom : Nat} (hvalue : 0 < value)
    (hbits : value.log2 ≤ bottom + 100000) :
    Reaches value (2 ^ bottom) (pointOf value (2 ^ bottom) - 1) := by
  obtain ⟨guess, hguess⟩ : ∃ guess, guess =
      (((value.log2 : Int) - (2 ^ bottom).log2) * 30103).fdiv 100000 := ⟨_, rfl⟩
  have hreaches : ∀ point, ¬value * 10 ^ (-point).toNat < 2 ^ bottom * 10 ^ point.toNat →
      Reaches value (2 ^ bottom) point := fun point h => Nat.le_of_not_lt h
  have hlow : Reaches value (2 ^ bottom) (guess - 2) := by
    have hpower := reaches_guess hbits
    rw [Nat.log2_two_pow] at hguess
    rw [← hguess] at hpower
    exact hpower.trans (Nat.mul_le_mul_right _ (Nat.log2_self_le (by omega)))
  unfold pointOf
  dsimp only
  rw [← hguess]
  simp only [List.find?_cons, List.find?_nil]
  split
  · rw [Option.getD_some, Int.sub_sub]
    exact hlow
  · rename_i hfirst
    have hbelow := hreaches _ (of_decide_eq_false hfirst)
    split
    · exact hbelow
    · rename_i hsecond
      have hat := hreaches _ (of_decide_eq_false hsecond)
      split
      · rwa [Option.getD_some, Int.add_sub_cancel]
      · rename_i hthird
        have habove := hreaches _ (of_decide_eq_false hthird)
        rwa [Option.getD_none, Int.add_sub_assoc]

/-! Seventeen digits. -/

/-- Of the whole numbers the nearest to a fraction is at most half a unit away from it. -/
theorem nearest_within {top unit : Nat} (hunit : 0 < unit) :
    let floor := top / unit
    let rest := top % unit
    let n := if (decide (2 * rest < unit) || (2 * rest == unit && floor % 2 == 0)) then floor
      else floor + 1
    2 * (n * unit) ≤ 2 * top + unit ∧ 2 * top ≤ 2 * (n * unit) + unit := by
  intro floor rest n
  have hsplit : top = floor * unit + rest := (Nat.div_add_mod' top unit).symm
  have hrest : rest < unit := Nat.mod_lt _ hunit
  by_cases hhalf : (decide (2 * rest < unit) || (2 * rest == unit && floor % 2 == 0)) = true
  · have hn : n = floor := if_pos hhalf
    have hle : 2 * rest ≤ unit := by
      rcases Bool.or_eq_true_iff.mp hhalf with hlt | heq
      · have hlt' := of_decide_eq_true hlt
        omega
      · rw [Bool.and_eq_true, beq_iff_eq] at heq
        omega
    rw [hn]
    omega
  · have hn : n = floor + 1 := if_neg hhalf
    have hge : unit ≤ 2 * rest := by
      by_contra hlt
      refine hhalf (Bool.or_eq_true_iff.mpr (.inl (decide_eq_true ?_)))
      omega
    have hnext : (floor + 1) * unit = floor * unit + unit := Nat.add_one_mul _ _
    rw [hn, hnext]
    omega

/-- The nearest number of seventeen digits lies inside of the interval. -/
theorem inside_of_reaches {mantissa below scale up unit : Nat} (hmantissa : mantissa < 2 ^ 53)
    (hbelow : below = 2 ∨ below = 1 ∧ mantissa = 2 ^ 52) (hpositive : 0 < mantissa)
    (hscale : 0 < scale) (hup : 0 < up)
    (hreaches : 10 ^ 16 * unit ≤ 4 * mantissa * scale * up) {n : Nat}
    (hnear : 2 * (n * unit) ≤ 2 * (4 * mantissa * scale * up) + unit ∧
      2 * (4 * mantissa * scale * up) ≤ 2 * (n * unit) + unit) :
    (4 * mantissa - below) * scale * up < n * unit ∧
      n * unit < (4 * mantissa + 2) * scale * up := by
  -- all sizes are multiples of one step
  obtain ⟨step, hstep⟩ : ∃ step, step = scale * up := ⟨_, rfl⟩
  obtain ⟨size, hsize⟩ : ∃ size, size = mantissa * step := ⟨_, rfl⟩
  have hpos : 0 < step := hstep ▸ Nat.mul_pos hscale hup
  have hvalue : 4 * mantissa * scale * up = 4 * size := by
    rw [hsize, hstep, Nat.mul_assoc, Nat.mul_assoc]
  have hhigh : (4 * mantissa + 2) * scale * up = 4 * size + 2 * step := by
    rw [Nat.mul_assoc, ← hstep, Nat.add_mul, Nat.mul_assoc, ← hsize]
  have hlow : (4 * mantissa - below) * scale * up = 4 * size - below * step := by
    rw [Nat.mul_assoc, ← hstep, Nat.sub_mul, Nat.mul_assoc, ← hsize]
  have hbits : size ≤ (2 ^ 53 - 1) * step := by
    rw [hsize]
    exact Nat.mul_le_mul_right _ (by omega)
  have hleast : step ≤ size := by
    rw [hsize]
    exact Nat.le_mul_of_pos_left _ hpositive
  rw [hvalue] at hreaches hnear
  rw [hlow, hhigh]
  rcases hbelow with rfl | ⟨rfl, rfl⟩
  · omega
  · omega

/-- A number that reaches a place has seventeen digits from there on. -/
theorem reaches_seventeen {value den : Nat} {point : Int} (h : Reaches value den (point - 1)) :
    10 ^ 16 * (den * 10 ^ (-(17 - point)).toNat) ≤ value * 10 ^ (17 - point).toNat := by
  unfold Reaches at h
  have hplaces : (point - 1).toNat + (17 - point).toNat =
      (-(point - 1)).toNat + ((-(17 - point)).toNat + 16) := by omega
  refine Nat.le_of_mul_le_mul_left ?_ (Nat.pow_pos (by decide : 0 < 10) (n := (-(point - 1)).toNat))
  calc 10 ^ (-(point - 1)).toNat * (10 ^ 16 * (den * 10 ^ (-(17 - point)).toNat))
      = den * 10 ^ ((-(point - 1)).toNat + ((-(17 - point)).toNat + 16)) := by
        rw [Nat.pow_add, Nat.pow_add]
        ac_rfl
    _ = den * 10 ^ (point - 1).toNat * 10 ^ (17 - point).toNat := by
        rw [← hplaces, Nat.pow_add, Nat.mul_assoc]
    _ ≤ value * 10 ^ (-(point - 1)).toNat * 10 ^ (17 - point).toNat := Nat.mul_le_mul_right _ h
    _ = 10 ^ (-(point - 1)).toNat * (value * 10 ^ (17 - point).toNat) := by ac_rfl

variable {mantissa : Nat} {exponent : Int}

/-- The interval of a number that is not zero ends above zero. -/
theorem low_pos (h : 0 < mantissa) : 0 < (rounding mantissa exponent).low := by
  have hscale : 0 < 1 <<< (exponent - 2).toNat := by
    rw [Nat.one_shiftLeft]
    exact Nat.pow_pos (by decide)
  unfold rounding
  dsimp only
  refine Nat.mul_pos ?_ hscale
  split_ifs <;> omega

/-- Seventeen digits name a double. -/
theorem isSome_nearestOfLength (hpositive : 0 < mantissa) (hmantissa : mantissa < mantissaBound)
    (hexponent : exponent ≤ greatestExponent) :
    let r := rounding mantissa exponent
    (nearestOfLength r (pointOf r.value r.denominator) 17).isSome = true := by
  intro r
  obtain ⟨top, htop⟩ : ∃ top, top = (exponent - 2).toNat := ⟨_, rfl⟩
  obtain ⟨bottom, hbottom⟩ : ∃ bottom, bottom = (2 - exponent).toNat := ⟨_, rfl⟩
  have hscale : 0 < 2 ^ top := Nat.pow_pos (by decide)
  have hbound : mantissa < 2 ^ 53 := hmantissa
  have hden : r.denominator = 2 ^ bottom := by
    rw [hbottom]
    exact Nat.one_shiftLeft _
  have hvalue : r.value = 4 * mantissa * 2 ^ top := by
    rw [htop, ← Nat.one_shiftLeft]
    rfl
  have hhigh : r.high = (4 * mantissa + 2) * 2 ^ top := by
    rw [htop, ← Nat.one_shiftLeft]
    rfl
  obtain ⟨below, hbelow, hlow⟩ : ∃ below, (below = 2 ∨ below = 1 ∧ mantissa = 2 ^ 52) ∧
      r.low = (4 * mantissa - below) * 2 ^ top := by
    refine ⟨_, ?_, by rw [htop, ← Nat.one_shiftLeft]; rfl⟩
    split
    · rename_i hpower
      rw [Bool.and_eq_true, beq_iff_eq] at hpower
      exact .inr ⟨rfl, hpower.1⟩
    · exact .inl rfl
  have hpos : 0 < 4 * mantissa * 2 ^ top := Nat.mul_pos (by omega) hscale
  have hreaches : Reaches (4 * mantissa * 2 ^ top) (2 ^ bottom)
      (pointOf (4 * mantissa * 2 ^ top) (2 ^ bottom) - 1) := by
    refine reaches_pointOf hpos ?_
    have hlog : (4 * mantissa * 2 ^ top).log2 < 55 + top := by
      rw [Nat.log2_lt (by omega), Nat.pow_add]
      exact Nat.mul_lt_mul_of_pos_right (by omega) hscale
    rw [greatestExponent] at hexponent
    omega
  rw [hden, hvalue]
  generalize pointOf (4 * mantissa * 2 ^ top) (2 ^ bottom) = point at hreaches ⊢
  have hunit : 0 < 2 ^ bottom * 10 ^ (-(17 - point)).toNat :=
    Nat.mul_pos (Nat.pow_pos (by decide)) (Nat.pow_pos (by decide))
  have hnear := @nearest_within (4 * mantissa * 2 ^ top * 10 ^ (17 - point).toNat) _ hunit
  have hinside := inside_of_reaches hbound hbelow hpositive hscale
    (Nat.pow_pos (by decide : 0 < 10)) (reaches_seventeen hreaches) hnear
  unfold nearestOfLength
  rw [List.find?_isSome]
  refine ⟨_, List.mem_cons_self, ?_⟩
  simp only [hden, hvalue, hhigh, hlow]
  split
  · exact Bool.and_eq_true_iff.mpr ⟨decide_eq_true hinside.1.le, decide_eq_true hinside.2.le⟩
  · exact Bool.and_eq_true_iff.mpr ⟨decide_eq_true hinside.1, decide_eq_true hinside.2⟩

/-- What names a number that is not zero is not zero either. -/
theorem pos_of_nearestOfLength (hpositive : 0 < mantissa) {point : Int} {count n : Nat}
    (h : nearestOfLength (rounding mantissa exponent) point count = some n) : 0 < n := by
  have hlow : 0 < (rounding mantissa exponent).low * Nat.pow 10 (count - point).toNat :=
    Nat.mul_pos (low_pos hpositive) (Nat.pow_pos (by decide))
  have hinside := List.find?_some h
  refine Nat.pos_of_ne_zero ?_
  rintro rfl
  split at hinside
  · have hends := of_decide_eq_true (Bool.and_eq_true_iff.mp hinside).1
    omega
  · have hends := of_decide_eq_true (Bool.and_eq_true_iff.mp hinside).1
    omega

theorem isDigit_shortestDigits (mantissa : Nat) (exponent : Int) :
    ∀ c ∈ (shortestDigits mantissa exponent).digits, c.isDigit = true := by
  intro c hc
  simp only [shortestDigits, List.mem_reverse] at hc
  have hdigits := (List.dropWhile_sublist _).subset hc
  exact Nat.isDigit_of_mem_toDigits (by decide) (by decide) (List.mem_reverse.mp hdigits)

/-- The digits of a double that is not zero are not all zero. -/
theorem shortestDigits_ne_nil (hpositive : 0 < mantissa) (hmantissa : mantissa < mantissaBound)
    (hexponent : exponent ≤ greatestExponent) :
    (shortestDigits mantissa exponent).digits ≠ [] := by
  have hsome := isSome_nearestOfLength hpositive hmantissa hexponent
  unfold shortestDigits
  dsimp only at hsome ⊢
  generalize pointOf (rounding mantissa exponent).value (rounding mantissa exponent).denominator =
    point at hsome ⊢
  cases hfound : (List.range 17).findSome? fun i =>
    (nearestOfLength (rounding mantissa exponent) point (i + 1)).map fun n => (n, i + 1) with
  | none =>
      have hnone := List.findSome?_eq_none_iff.mp hfound 16 (by simp)
      rw [Option.map_eq_none_iff] at hnone
      rw [hnone] at hsome
      cases hsome
  | some pair =>
      obtain ⟨n, count⟩ := pair
      obtain ⟨i, _, hnearest⟩ := List.exists_of_findSome?_eq_some hfound
      obtain ⟨m, hm, hpair⟩ := Option.map_eq_some_iff.mp hnearest
      have hn : 0 < n := (Prod.mk.inj hpair).1 ▸ pos_of_nearestOfLength hpositive hm
      rw [Option.getD_some]
      dsimp only
      -- a number that is written with zeros only is zero
      intro hnil
      rw [List.reverse_eq_nil_iff, List.dropWhile_eq_nil_iff] at hnil
      have hzeros : Nat.toDigits 10 n = List.replicate (Nat.toDigits 10 n).length '0' :=
        List.eq_replicate_of_mem fun c hc => beq_iff_eq.mp (hnil c (List.mem_reverse.mpr hc))
      have hzero : n = 0 := by
        have hdigits := Nat.ofDigitChars_toDigits (b := 10) (n := n) (by decide) (by decide)
        rw [hzeros, Nat.ofDigitChars_replicate_zero] at hdigits
        omega
      omega

end QueryLoom.Binary64
