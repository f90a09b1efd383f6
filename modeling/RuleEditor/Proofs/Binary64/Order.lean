import RuleEditor.Proofs.Binary64.Reading

/-!
# The order of numbers

Ranks stand in the order of magnitudes, and rounding keeps that order: a fraction that is at least a
number is not rounded to a smaller one, and a fraction that is at most a number is not rounded to a
greater one. So a decimal between two numbers is read as a number between them.

## Main definitions

* `Binary64.value` — the value of a number.
* `Binary64.towardZero` — the integer part of a fraction.

## Main results

* `Binary64.rank_le_nearestRank`, `Binary64.nearestRank_le_rank` — rounding keeps the order.
* `Binary64.rank_le_rank_iff` — ranks stand in the order of magnitudes.
* `Binary64.exists_ofDecimal?_between` — a decimal between two numbers is read as one between them.
* `Binary64.truncate_eq_towardZero` — a number is truncated to the integer part of its value.
-/

set_option relaxedAutoImplicit false
set_option autoImplicit false

namespace RuleEditor.Binary64

/-! ## Rounding and order -/

/-- A fraction that is at least an integer is not rounded to a smaller one. -/
lemma le_roundHalfEven {q num den : Nat} (hden : 0 < den) (h : (q : ℚ) ≤ (num : ℚ) / den) :
    q ≤ roundHalfEven num den := by
  have hquotient : q ≤ num / den := by
    rw [Nat.le_div_iff_mul_le hden]
    rw [le_div_iff₀ (by exact_mod_cast hden)] at h
    exact_mod_cast h
  unfold roundHalfEven
  dsimp only
  split <;> omega

/-- A fraction that is at most an integer is not rounded to a greater one. -/
lemma roundHalfEven_le {q num den : Nat} (hden : 0 < den) (h : (num : ℚ) / den ≤ q) :
    roundHalfEven num den ≤ q := by
  have hproduct : num ≤ q * den := by
    rw [div_le_iff₀ (by exact_mod_cast hden)] at h
    exact_mod_cast h
  rcases hproduct.lt_or_eq with hlt | rfl
  · have hquotient : num / den < q := (Nat.div_lt_iff_lt_mul hden).2 hlt
    unfold roundHalfEven
    dsimp only
    split <;> omega
  · exact (roundHalfEven_mul hden).le

section Fraction

variable {x : Binary64} {num den : Nat}

/-- The scale at which a fraction is rounded. -/
def scaleOf (r : ℚ) : ℤ := max (-1074) (Int.log 2 r - 52)

/-- The rank of the number that a positive fraction is rounded to is made up of the scale of the
fraction and an integer next to the fraction at that scale. -/
lemma exists_nearestRank_eq (hnum : num ≠ 0) (hden : 0 < den) :
    ∃ q, nearestRank num den = (scaleOf ((num : ℚ) / den) + 1074).toNat * 2 ^ 52 + q ∧
      (∀ n : ℕ, n ≤ (num : ℚ) / den / 2 ^ scaleOf ((num : ℚ) / den) → n ≤ q) ∧
      ∀ n : ℕ, (num : ℚ) / den / 2 ^ scaleOf ((num : ℚ) / den) ≤ n → q ≤ n := by
  have hshifted : 0 < den * 2 ^ (scaleOf ((num : ℚ) / den)).toNat :=
    Nat.mul_pos hden (Nat.pow_pos two_pos)
  refine ⟨roundHalfEven (num * 2 ^ (-scaleOf ((num : ℚ) / den)).toNat)
    (den * 2 ^ (scaleOf ((num : ℚ) / den)).toNat), ?_, fun n hn => ?_, fun n hn => ?_⟩
  · simp only [nearestRank, if_neg hnum, floorLog2_eq_log (Nat.pos_of_ne_zero hnum) hden]
    rfl
  · exact le_roundHalfEven hshifted (by rwa [shifted_ratio])
  · exact roundHalfEven_le hshifted (by rwa [shifted_ratio])

/-- At its scale a fraction has at most 53 bits in front of the point. -/
lemma div_scaleOf_lt (r : ℚ) : r / (2 : ℚ) ^ scaleOf r < 2 ^ 53 := by
  have hlog : r < (2 : ℚ) ^ (Int.log 2 r + 1) := by
    simpa using Int.lt_zpow_succ_log_self Nat.one_lt_two r
  rw [div_lt_iff₀ (zpow_pos two_pos _), ← zpow_natCast, ← zpow_add₀ two_ne_zero]
  refine hlog.trans_le (zpow_le_zpow_right₀ one_le_two ?_)
  have hscale : Int.log 2 r - 52 ≤ scaleOf r := le_max_right _ _
  push_cast
  omega

/-- Above the least scale a fraction has exactly 53 bits in front of the point. -/
lemma le_div_scaleOf {r : ℚ} (hr : 0 < r) (h : -1074 < scaleOf r) :
    2 ^ 52 ≤ r / (2 : ℚ) ^ scaleOf r := by
  have hlog : (2 : ℚ) ^ Int.log 2 r ≤ r := by
    simpa using Int.zpow_log_le_self Nat.one_lt_two hr
  rw [le_div_iff₀ (zpow_pos two_pos _), ← zpow_natCast, ← zpow_add₀ two_ne_zero]
  refine (zpow_le_zpow_right₀ one_le_two ?_).trans hlog
  unfold scaleOf at h ⊢
  push_cast
  omega

/-- Greater fractions have greater scales. -/
lemma scaleOf_mono {r r' : ℚ} (hr : 0 < r) (h : r ≤ r') : scaleOf r ≤ scaleOf r' :=
  max_le_max_left _ (sub_le_sub_right (Int.log_mono_right hr h) 52)

/-- A number is zero exactly if its magnitude is. -/
lemma magnitude_eq_zero_iff : x.magnitude = 0 ↔ x.rank = 0 := by
  refine ⟨fun h => ?_, fun h => by simp [magnitude, significand, h]⟩
  by_contra hne
  exact (magnitude_pos hne).ne' h

/-- Magnitudes are not negative. -/
lemma magnitude_nonneg (x : Binary64) : 0 ≤ x.magnitude :=
  mul_nonneg (Nat.cast_nonneg _) (zpow_pos two_pos _).le

/-- **Rounding keeps the order from below.** A fraction that is at least a number is not rounded to
a smaller one.

**Proof sketch.** The scale of the fraction is at least that of the number. If it is the same, the
significand is at most the quotient that is rounded. If it is greater, the quotient has 53 bits in
front of the point, and the rank exceeds that of every number of a smaller scale. -/
theorem rank_le_nearestRank (hden : 0 < den) (h : x.magnitude ≤ (num : ℚ) / den) :
    x.rank ≤ nearestRank num den := by
  by_cases hzero : x.rank = 0
  · omega
  have hpos := magnitude_pos hzero
  have hnum : num ≠ 0 := by
    rintro rfl
    rw [Nat.cast_zero, zero_div] at h
    exact absurd hpos h.not_gt
  have hscale : x.scale ≤ scaleOf ((num : ℚ) / den) := by
    rw [scale_eq hzero]
    exact scaleOf_mono hpos h
  have hge := x.scale_ge
  have hrank := x.rank_eq
  have hbits := x.significand_lt
  obtain ⟨q, hnearest, hle, -⟩ := exists_nearestRank_eq hnum hden
  rcases hscale.lt_or_eq with hlt | heq
  · have hq : 2 ^ 52 ≤ q := by
      refine hle _ ?_
      exact_mod_cast le_div_scaleOf (hpos.trans_le h) (by omega)
    omega
  · have hq : x.significand ≤ q := by
      refine hle _ ?_
      rw [le_div_iff₀ (zpow_pos two_pos _), ← heq]
      exact h
    omega

/-- **Rounding keeps the order from above.** A fraction that is at most a number is not rounded to a
greater one. The cases are those of `rank_le_nearestRank` with the sides exchanged. -/
theorem nearestRank_le_rank (hden : 0 < den) (h : (num : ℚ) / den ≤ x.magnitude) :
    nearestRank num den ≤ x.rank := by
  by_cases hnum : num = 0
  · simp [nearestRank, hnum]
  have hratio : (0 : ℚ) < (num : ℚ) / den := by positivity
  have hzero : x.rank ≠ 0 := fun e => (hratio.trans_le h).ne' (magnitude_eq_zero_iff.2 e)
  have hscale : scaleOf ((num : ℚ) / den) ≤ x.scale := by
    rw [scale_eq hzero]
    exact scaleOf_mono hratio h
  have hleast : -1074 ≤ scaleOf ((num : ℚ) / den) := le_max_left _ _
  have hrank := x.rank_eq
  obtain ⟨q, hnearest, -, hge⟩ := exists_nearestRank_eq hnum hden
  rcases hscale.lt_or_eq with hlt | heq
  · have hbits := le_significand (hleast.trans_lt hlt)
    have hq : q ≤ 2 ^ 53 := by
      refine hge _ ?_
      exact_mod_cast (div_scaleOf_lt ((num : ℚ) / den)).le
    omega
  · have hq : q ≤ x.significand := by
      refine hge _ ?_
      rw [div_le_iff₀ (zpow_pos two_pos _), heq]
      exact h
    omega

end Fraction

/-- **Ranks stand in the order of magnitudes.** Rounding is exact on magnitudes and keeps their
order, and there is one rank to a magnitude. -/
theorem rank_le_rank_iff {x y : Binary64} : x.rank ≤ y.rank ↔ x.magnitude ≤ y.magnitude := by
  have hle : ∀ {x y : Binary64}, x.magnitude ≤ y.magnitude → x.rank ≤ y.rank := by
    intro x y h
    rw [← nearestRank_eq_rank y.denominator_pos y.numerator_div_denominator]
    exact rank_le_nearestRank y.denominator_pos (by rwa [y.numerator_div_denominator])
  refine ⟨fun h => ?_, hle⟩
  by_contra hlt
  have heq : x.rank = y.rank := le_antisymm h (hle (not_le.1 hlt).le)
  -- numbers of one rank differ in their signs alone
  have hmagnitude : x.magnitude = y.magnitude := by
    simp only [magnitude, significand, scale, heq]
  exact hlt hmagnitude.le

/-! ## Reading and order -/

/-- **A decimal between two numbers is read as a number between them.**

**Proof sketch.** The decimal is rounded, which keeps the order, or it is so close to zero that it
is read as zero; then the lower number is zero too. -/
theorem exists_ofDecimal?_between {d : Decimal} {x y : Binary64} (hx : x.magnitude ≤ d.magnitude)
    (hy : d.magnitude ≤ y.magnitude) :
    ∃ z, ofDecimal? d = some z ∧ z.negative = d.negative ∧ x.magnitude ≤ z.magnitude ∧
      z.magnitude ≤ y.magnitude := by
  have hzero : (zero d.negative).magnitude = 0 := magnitude_eq_zero_iff.2 rfl
  by_cases hcoefficient : d.coefficient = 0
  · refine ⟨zero d.negative, by rw [ofDecimal?, if_pos hcoefficient], rfl, ?_, ?_⟩
    · rw [hzero, ← d.magnitude_eq_zero_iff.2 hcoefficient]
      exact hx
    · rw [hzero]
      exact y.magnitude_nonneg
  have hpos := Decimal.magnitude_pos hcoefficient
  have hyrank : y.rank ≠ 0 := fun e => (hpos.trans_le hy).ne' (magnitude_eq_zero_iff.2 e)
  have hpoint : d.point = Int.log 10 d.magnitude + 1 := Decimal.point_eq hcoefficient
  have hlog : Int.log 10 d.magnitude < 309 := by
    refine (Int.lt_zpow_iff_log_lt (by norm_num) hpos).1 ?_
    simpa using hy.trans_lt (magnitude_mem_range hyrank).2
  have hnotAbove : ¬310 < d.point := by omega
  by_cases hbelow : d.point < -400
  · refine ⟨zero d.negative, ?_, rfl, ?_, ?_⟩
    · rw [ofDecimal?, if_neg hcoefficient, if_neg hnotAbove, if_pos hbelow]
    · have hxrank : x.rank = 0 := by
        by_contra hne
        have hlow : (10 : ℚ) ^ (-400 : ℤ) ≤ d.magnitude := (magnitude_mem_range hne).1.trans hx
        have hlogLow : (-400 : ℤ) ≤ Int.log 10 d.magnitude :=
          (Int.zpow_le_iff_le_log (by norm_num) hpos).1 (by simpa using hlow)
        omega
      rw [hzero, magnitude_eq_zero_iff.2 hxrank]
    · rw [hzero]
      exact y.magnitude_nonneg
  · have hden : 0 < 10 ^ (-d.exponent).toNat := Nat.pow_pos (by decide)
    have hratio := d.ratio_eq_magnitude
    have hlower := rank_le_nearestRank hden (hx.trans hratio.ge)
    have hupper := nearestRank_le_rank hden (hratio.le.trans hy)
    have hrange := hupper.trans_lt y.rank_lt
    refine ⟨⟨d.negative, _, hrange⟩, ?_, rfl, rank_le_rank_iff.1 hlower, rank_le_rank_iff.1 hupper⟩
    rw [ofDecimal?, if_neg hcoefficient, if_neg hnotAbove, if_neg hbelow, ofRatio?, dif_pos hrange]

/-! ## Values and integer parts -/

/-- The value of a number as a rational, with its sign. Both zeros have the value zero. -/
def value (x : Binary64) : ℚ := if x.negative then -x.magnitude else x.magnitude

/-- The integer part of a fraction: the nearest integer on the side of zero. It is the greatest
integer below a fraction that is not negative, and the least one above a negative fraction. -/
def towardZero (r : ℚ) : ℤ := if 0 ≤ r then ⌊r⌋ else ⌈r⌉

/-- An integer is its own integer part. -/
@[simp] lemma towardZero_intCast (n : ℤ) : towardZero n = n := by
  simp [towardZero]

/-- The integer part of what is not negative is the greatest integer below it. -/
lemma towardZero_of_nonneg {r : ℚ} (h : 0 ≤ r) : towardZero r = ⌊r⌋ := if_pos h

/-- Fractions that differ in the sign alone have integer parts that do so. -/
lemma towardZero_neg (r : ℚ) : towardZero (-r) = -towardZero r := by
  unfold towardZero
  rcases lt_trichotomy r 0 with h | rfl | h
  · simp [h.le, h.not_ge, Int.floor_neg]
  · simp
  · simp [h.le, h.not_ge, Int.ceil_neg]

/-- **A number is truncated to the integer part of its value**, that is toward zero on either side
of it. -/
theorem truncate_eq_towardZero (x : Binary64) : x.truncate = towardZero x.value := by
  have hfloor : towardZero x.magnitude = (x.numerator / x.denominator : ℕ) := by
    rw [towardZero_of_nonneg x.magnitude_nonneg, ← x.numerator_div_denominator,
      Rat.floor_natCast_div_natCast, Int.natCast_div]
  unfold truncate value
  cases x.negative with
  | true => simp [towardZero_neg, hfloor]
  | false => simp [hfloor]

end RuleEditor.Binary64
