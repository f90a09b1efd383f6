import Mathlib.Data.Int.Log
import Mathlib.Data.Rat.Floor
import Mathlib.Tactic.FieldSimp
import Mathlib.Tactic.Linarith
import Mathlib.Tactic.Ring
import RuleEditor.Binary64.Rounding

/-!
# Rounding of exact values

Rounding depends on the value of a fraction alone, not on its numerator and denominator, and a
fraction that is the value of a number is rounded to that number.

## Main definitions

* `Binary64.magnitude` — the value of a number without its sign.

## Main results

* `Binary64.floorLog2_eq_log` — the exponent that rounding finds is the logarithm of the fraction.
* `Binary64.nearestRank_congr` — fractions of one value are rounded alike.
* `Binary64.nearestRank_eq_rank` — the value of a number is rounded to its rank.
-/

set_option relaxedAutoImplicit false
set_option autoImplicit false

namespace RuleEditor.Binary64

/-- The value of a number without its sign, as a rational: significand and scale put together. -/
def magnitude (x : Binary64) : ℚ := x.significand * (2 : ℚ) ^ x.scale

/-! ## Powers in fractions -/

/-- A power with an integer exponent is a fraction of powers with natural ones, of which one is
zero. -/
lemma zpow_eq_div (a : ℚ) (t : ℤ) : a ^ t = a ^ t.toNat / a ^ (-t).toNat := by
  rcases le_total 0 t with ht | ht
  · have hneg : (-t).toNat = 0 := by omega
    rw [hneg, pow_zero, div_one, ← zpow_natCast, Int.toNat_of_nonneg ht]
  · have hpos : t.toNat = 0 := by omega
    rw [hpos, pow_zero, one_div, ← zpow_natCast, Int.toNat_of_nonneg (by omega), ← zpow_neg,
      neg_neg]

/-- The numerator and the denominator of a number make up its magnitude. -/
lemma numerator_div_denominator (x : Binary64) :
    (x.numerator : ℚ) / x.denominator = x.magnitude := by
  rw [magnitude, zpow_eq_div, numerator, denominator]
  push_cast
  ring

/-- The denominator of a number is positive. -/
lemma denominator_pos (x : Binary64) : 0 < x.denominator := Nat.pow_pos (by decide)

/-- The fraction that is rounded to an integer is the given one, divided by a power of two. Shifting
one side or the other avoids negative exponents. -/
lemma shifted_ratio (num den : Nat) (s : ℤ) :
    ((num * 2 ^ (-s).toNat : ℕ) : ℚ) / ((den * 2 ^ s.toNat : ℕ) : ℚ) =
      (num : ℚ) / den / (2 : ℚ) ^ s := by
  rw [zpow_eq_div 2 s]
  push_cast
  field_simp

/-! ## The logarithm -/

/-- The test that the logarithm makes compares the fraction with a power of two. -/
lemma shifted_le_iff {num den : Nat} (hden : 0 < den) (t : ℤ) :
    den * 2 ^ t.toNat ≤ num * 2 ^ (-t).toNat ↔ (2 : ℚ) ^ t ≤ (num : ℚ) / den := by
  have hden' : (0 : ℚ) < den := by exact_mod_cast hden
  rw [zpow_eq_div 2 t, div_le_div_iff₀ (by positivity) hden', mul_comm ((2 : ℚ) ^ _)]
  exact_mod_cast Iff.rfl

/-- The exponent that rounding finds is the logarithm of the fraction.

**Proof sketch.** A fraction lies between the powers of two that the difference of the logarithms of
its parts, less one, and that difference, plus one, give; the test decides on which side of the
power in the middle. -/
theorem floorLog2_eq_log {num den : Nat} (hnum : 0 < num) (hden : 0 < den) :
    floorLog2 num den = Int.log 2 ((num : ℚ) / den) := by
  have hnum' : (0 : ℚ) < num := by exact_mod_cast hnum
  have hden' : (0 : ℚ) < den := by exact_mod_cast hden
  have hratio : (0 : ℚ) < (num : ℚ) / den := div_pos hnum' hden'
  have htwo : (1 : ℚ) < 2 := by norm_num
  have hnumLower : ((2 : ℚ) ^ num.log2) ≤ num := by exact_mod_cast Nat.log2_self_le hnum.ne'
  have hnumUpper : (num : ℚ) < (2 : ℚ) ^ (num.log2 + 1) := by exact_mod_cast Nat.lt_log2_self
  have hdenLower : ((2 : ℚ) ^ den.log2) ≤ den := by exact_mod_cast Nat.log2_self_le hden.ne'
  have hdenUpper : (den : ℚ) < (2 : ℚ) ^ (den.log2 + 1) := by exact_mod_cast Nat.lt_log2_self
  have hlower : (2 : ℚ) ^ ((num.log2 : ℤ) - den.log2 - 1) ≤ (num : ℚ) / den := by
    rw [le_div_iff₀ hden']
    calc (2 : ℚ) ^ ((num.log2 : ℤ) - den.log2 - 1) * den
        ≤ (2 : ℚ) ^ ((num.log2 : ℤ) - den.log2 - 1) * (2 : ℚ) ^ (den.log2 + 1) :=
          mul_le_mul_of_nonneg_left hdenUpper.le (zpow_pos two_pos _).le
      _ = (2 : ℚ) ^ num.log2 := by
          rw [← zpow_natCast, ← zpow_natCast, ← zpow_add₀ two_ne_zero]
          congr 1
          push_cast
          ring
      _ ≤ num := hnumLower
  have hupper : (num : ℚ) / den < (2 : ℚ) ^ ((num.log2 : ℤ) - den.log2 + 1) := by
    rw [div_lt_iff₀ hden']
    calc (num : ℚ) < (2 : ℚ) ^ (num.log2 + 1) := hnumUpper
      _ = (2 : ℚ) ^ ((num.log2 : ℤ) - den.log2 + 1) * (2 : ℚ) ^ den.log2 := by
          rw [← zpow_natCast, ← zpow_natCast, ← zpow_add₀ two_ne_zero]
          congr 1
          push_cast
          ring
      _ ≤ (2 : ℚ) ^ ((num.log2 : ℤ) - den.log2 + 1) * den :=
          mul_le_mul_of_nonneg_left hdenLower (zpow_pos two_pos _).le
  have hlog : ∀ t : ℤ, (2 : ℚ) ^ t ≤ (num : ℚ) / den ↔ t ≤ Int.log 2 ((num : ℚ) / den) := by
    intro t
    simpa using Int.zpow_le_iff_le_log Nat.one_lt_two hratio
  have hlogLower := (hlog _).1 hlower
  have hlogUpper := (hlog _).not.1 hupper.not_ge
  simp only [floorLog2, shifted_le_iff hden, hlog]
  split <;> omega

/-! ## Rounding -/

/-- A fraction of an integer value is rounded to that integer. -/
lemma roundHalfEven_mul {q den : Nat} (hden : 0 < den) : roundHalfEven (q * den) den = q := by
  rw [roundHalfEven, Nat.mul_div_cancel q hden, Nat.mul_mod_left, if_neg (by omega)]

/-- Extending a fraction does not change what it is rounded to. -/
lemma roundHalfEven_extend {num den c : Nat} (hc : 0 < c) :
    roundHalfEven (c * num) (c * den) = roundHalfEven num den := by
  have hless : 2 * (c * (num % den)) > c * den ↔ 2 * (num % den) > den := by
    rw [Nat.mul_left_comm]
    exact Nat.mul_lt_mul_left hc
  have heq : 2 * (c * (num % den)) = c * den ↔ 2 * (num % den) = den := by
    rw [Nat.mul_left_comm]
    exact Nat.mul_left_cancel_iff hc
  simp only [roundHalfEven, Nat.mul_div_mul_left num den hc, Nat.mul_mod_mul_left, hless, heq]

/-- Fractions of one value are rounded to the same integer: both extend to the fraction with the
product of the denominators. -/
lemma roundHalfEven_congr {num den num' den' : Nat} (hden : 0 < den) (hden' : 0 < den')
    (h : num * den' = num' * den) : roundHalfEven num den = roundHalfEven num' den' := by
  have hleft : roundHalfEven (den' * num) (den' * den) = roundHalfEven num den :=
    roundHalfEven_extend hden'
  have hright : roundHalfEven (den * num') (den * den') = roundHalfEven num' den' :=
    roundHalfEven_extend hden
  rw [← hleft, ← hright, Nat.mul_comm den' num, h, Nat.mul_comm num' den, Nat.mul_comm den' den]

/-- Fractions of one value are rounded to the same number. So rounding is a function of values, and
a decimal may be written with any exponent. -/
theorem nearestRank_congr {num den num' den' : Nat} (hden : 0 < den) (hden' : 0 < den')
    (h : (num : ℚ) / den = (num' : ℚ) / den') : nearestRank num den = nearestRank num' den' := by
  have hcross : num * den' = num' * den := by
    rw [div_eq_div_iff (by positivity) (by positivity)] at h
    exact_mod_cast h
  by_cases hzero : num = 0
  · have hzero' : num' = 0 := by
      rw [hzero, Nat.zero_mul] at hcross
      rcases Nat.mul_eq_zero.1 hcross.symm with h | h
      · exact h
      · omega
    simp only [nearestRank, hzero, hzero', ↓reduceIte]
  · have hzero' : num' ≠ 0 := by
      rintro rfl
      rw [Nat.zero_mul] at hcross
      rcases Nat.mul_eq_zero.1 hcross with h | h <;> omega
    have hlog : floorLog2 num den = floorLog2 num' den' := by
      rw [floorLog2_eq_log (by omega) hden, floorLog2_eq_log (by omega) hden', h]
    simp only [nearestRank, hzero, hzero', hlog, ↓reduceIte]
    congr 1
    apply roundHalfEven_congr (Nat.mul_pos hden (Nat.pow_pos two_pos))
      (Nat.mul_pos hden' (Nat.pow_pos two_pos))
    rw [Nat.mul_mul_mul_comm, hcross, Nat.mul_mul_mul_comm]

/-! ## The values of numbers -/

/-- A significand has at most 53 bits, the highest of which is not stored. -/
lemma significand_lt (x : Binary64) : x.significand < 2 ^ 53 := by
  unfold significand
  split <;> omega

/-- No scale is below that of the least numbers. -/
lemma scale_ge (x : Binary64) : -1074 ≤ x.scale := by
  unfold scale
  split <;> omega

/-- No scale is above that of the greatest numbers. -/
lemma scale_le (x : Binary64) : x.scale ≤ 971 := by
  have hrank := x.rank_lt
  unfold scale
  split <;> omega

/-- The rank of a number in terms of its significand and its scale. The highest bit of the
significand adds one to the scale's part, so that ranks go on without a gap from one scale to the
next. -/
lemma rank_eq (x : Binary64) : x.rank = (x.scale + 1074).toNat * 2 ^ 52 + x.significand := by
  unfold scale significand
  split <;> omega

/-- Above the least scale a significand has exactly 53 bits. -/
lemma le_significand {x : Binary64} (h : -1074 < x.scale) : 2 ^ 52 ≤ x.significand := by
  unfold scale at h
  unfold significand
  split_ifs at h ⊢ <;> omega

/-- The significand of a number other than zero is not zero. -/
lemma significand_pos {x : Binary64} (h : x.rank ≠ 0) : 0 < x.significand := by
  unfold significand
  split <;> omega

/-- The magnitude of a number other than zero is positive. -/
lemma magnitude_pos {x : Binary64} (h : x.rank ≠ 0) : 0 < x.magnitude :=
  mul_pos (by exact_mod_cast significand_pos h) (zpow_pos two_pos _)

/-- A magnitude is below the power of two that its scale gives. -/
lemma magnitude_lt (x : Binary64) : x.magnitude < (2 : ℚ) ^ (x.scale + 53) := by
  have hlt : (x.significand : ℚ) < (2 : ℚ) ^ (53 : ℤ) := by exact_mod_cast x.significand_lt
  rw [magnitude, add_comm, zpow_add₀ two_ne_zero]
  exact mul_lt_mul_of_pos_right hlt (zpow_pos two_pos _)

/-- The scale of a number follows from its magnitude: it leaves a significand of 53 bits, unless
that scale would be too low. -/
lemma scale_eq {x : Binary64} (h : x.rank ≠ 0) :
    x.scale = max (-1074) (Int.log 2 x.magnitude - 52) := by
  have hpos := magnitude_pos h
  have hupper : Int.log 2 x.magnitude < x.scale + 53 := by
    refine (Int.lt_zpow_iff_log_lt Nat.one_lt_two hpos).1 ?_
    simpa using x.magnitude_lt
  have hge := x.scale_ge
  by_cases hleast : -1074 < x.scale
  · have hlower : x.scale + 52 ≤ Int.log 2 x.magnitude := by
      refine (Int.zpow_le_iff_le_log Nat.one_lt_two hpos).1 ?_
      have hle : (2 : ℚ) ^ (52 : ℤ) ≤ x.significand := by exact_mod_cast le_significand hleast
      rw [Nat.cast_two, magnitude, add_comm, zpow_add₀ two_ne_zero]
      exact mul_le_mul_of_nonneg_right hle (zpow_pos two_pos _).le
    omega
  · omega

/-- **Rounding is exact on the values of numbers.** A fraction whose value is the magnitude of a
number is rounded to that number.

**Proof sketch.** Rounding divides the fraction by the power of two whose exponent is the scale of
the number (`scale_eq`), which leaves the significand as an exact quotient; scale and significand
make up the rank (`rank_eq`). -/
theorem nearestRank_eq_rank {x : Binary64} {num den : Nat} (hden : 0 < den)
    (h : (num : ℚ) / den = x.magnitude) : nearestRank num den = x.rank := by
  by_cases hzero : x.rank = 0
  · have hsignificand : x.significand = 0 := by simp [significand, hzero]
    have hnum : num = 0 := by
      rw [magnitude, hsignificand, Nat.cast_zero, zero_mul, div_eq_zero_iff] at h
      rcases h with h | h
      · exact_mod_cast h
      · exact absurd h (by positivity)
    rw [nearestRank, if_pos hnum, hzero]
  · have hpos := magnitude_pos hzero
    have hnum : num ≠ 0 := by
      rintro rfl
      rw [Nat.cast_zero, zero_div] at h
      exact absurd h hpos.ne
    have hquotient : num * 2 ^ (-x.scale).toNat = x.significand * (den * 2 ^ x.scale.toNat) := by
      have hratio := shifted_ratio num den x.scale
      rw [h, magnitude, mul_div_assoc, div_self (zpow_pos two_pos _).ne', mul_one,
        div_eq_iff (by positivity)] at hratio
      exact_mod_cast hratio
    have hrounded := roundHalfEven_mul (q := x.significand)
      (Nat.mul_pos hden (Nat.pow_pos two_pos : 0 < 2 ^ x.scale.toNat))
    simp only [nearestRank, if_neg hnum, floorLog2_eq_log (Nat.pos_of_ne_zero hnum) hden, h,
      ← scale_eq hzero, hquotient, hrounded]
    exact x.rank_eq.symm

end RuleEditor.Binary64
