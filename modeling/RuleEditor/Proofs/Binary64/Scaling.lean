import RuleEditor.Binary64.Scaling
import RuleEditor.Proofs.Binary64.Reading

/-!
# Scaling integers by small powers of ten

Scaling a number by a power of ten rounds the power and then the result. For an integer up to
`2 ^ 53` and a power up to `10 ^ 22` the first rounding loses nothing, because `5 ^ 22` is below
`2 ^ 53`. There is one rounding only, and the result is the number nearest to the decimal that the
integer and the power make up.

## Main results

* `Binary64.ofRatio?_congr` — fractions of one sign and one value are rounded to the same number.
* `Binary64.exists_tenTo?_eq` — the powers of ten up to `10 ^ 22` are numbers.
* `Binary64.scaleByTen?_eq_ofDecimal?` — an integer is scaled by such a power as a decimal is read.
-/

set_option relaxedAutoImplicit false
set_option autoImplicit false

namespace RuleEditor.Binary64

variable {x y : Binary64}

/-! ## Products and quotients -/

/-- Fractions of one sign and one value are rounded to the same number, or both to none. -/
lemma ofRatio?_congr (negative : Bool) {num den num' den' : Nat} (hden : 0 < den)
    (hden' : 0 < den') (h : (num : ℚ) / den = (num' : ℚ) / den') :
    ofRatio? negative num den = ofRatio? negative num' den' := by
  simp only [ofRatio?, nearestRank_congr hden hden' h]

/-- A fraction that has the value of a number is rounded to that number. -/
lemma ofRatio?_eq_some {num den : Nat} (hden : 0 < den) (h : (num : ℚ) / den = x.magnitude) :
    ofRatio? x.negative num den = some x := by
  have hrank := nearestRank_eq_rank hden h
  rw [ofRatio?, dif_pos (hrank ▸ x.rank_lt)]
  simp only [hrank]

/-- The product of two numbers is rounded from the product of their values. -/
lemma mul?_eq_ofRatio? {num den : Nat} (hden : 0 < den)
    (h : (num : ℚ) / den = x.magnitude * y.magnitude) :
    x.mul? y = ofRatio? (x.negative != y.negative) num den := by
  refine ofRatio?_congr _ (Nat.mul_pos x.denominator_pos y.denominator_pos) hden ?_
  rw [h, ← x.numerator_div_denominator, ← y.numerator_div_denominator, div_mul_div_comm]
  push_cast
  rfl

/-- The quotient of two numbers is rounded from the quotient of their values. -/
lemma div?_eq_ofRatio? {num den : Nat} (hden : 0 < den) (hy : y.magnitude ≠ 0)
    (h : (num : ℚ) / den = x.magnitude / y.magnitude) :
    x.div? y = ofRatio? (x.negative != y.negative) num den := by
  have hnumerator : 0 < y.numerator := by
    refine Nat.pos_of_ne_zero fun hzero => hy ?_
    rw [← y.numerator_div_denominator, hzero, Nat.cast_zero, zero_div]
  refine ofRatio?_congr _ (Nat.mul_pos x.denominator_pos hnumerator) hden ?_
  rw [h, ← x.numerator_div_denominator, ← y.numerator_div_denominator, div_div_div_eq]
  push_cast
  rfl

/-! ## Powers of ten -/

/-- A power of ten that is in range is multiplied or divided by in one step. -/
lemma scaleByTen?_of_le {e : Int} (he : e.natAbs ≤ 308) :
    x.scaleByTen? e =
      (tenTo? e.natAbs).bind fun power => if 0 ≤ e then x.mul? power else x.div? power := by
  rw [scaleByTen?, if_pos he, Option.bind_eq_bind]

/-- The powers of ten up to `10 ^ 22` are numbers: `10 ^ 22` is `5 ^ 22` times a power of two, and
`5 ^ 22` has 52 bits. -/
lemma exists_tenTo?_eq {k : Nat} (hk : k ≤ 22) :
    ∃ power, tenTo? k = some power ∧ power.negative = false ∧ power.magnitude = 10 ^ k := by
  have hexact : ∀ k ≤ 22, (tenTo? k).any fun power =>
      !power.negative && power.numerator == 10 ^ k * power.denominator := by
    decide +kernel
  obtain ⟨power, hpower, hvalue⟩ := (Option.any_eq_true _ _).1 (hexact k hk)
  obtain ⟨hsign, hnumerator⟩ :
      power.negative = false ∧ power.numerator = 10 ^ k * power.denominator := by
    simpa using hvalue
  refine ⟨power, hpower, hsign, ?_⟩
  have hden : (power.denominator : ℚ) ≠ 0 := by exact_mod_cast power.denominator_pos.ne'
  rw [← power.numerator_div_denominator, hnumerator, div_eq_iff hden]
  push_cast
  rfl

/-- A decimal of a few digits before and behind the point is read by rounding its exact value. -/
lemma ofDecimal?_eq_ofRatio? {d : Decimal} (hcoefficient : d.coefficient ≤ 2 ^ 53)
    (hexponent : d.exponent.natAbs ≤ 22) :
    ofDecimal? d =
      ofRatio? d.negative (d.coefficient * 10 ^ d.exponent.toNat) (10 ^ (-d.exponent).toNat) := by
  by_cases hzero : d.coefficient = 0
  · have hrank : nearestRank (d.coefficient * 10 ^ d.exponent.toNat) (10 ^ (-d.exponent).toNat) =
        0 := by
      rw [hzero, Nat.zero_mul, nearestRank, if_pos rfl]
    rw [ofDecimal?, if_pos hzero, ofRatio?, dif_pos (by rw [hrank]; decide)]
    simp only [hrank, zero]
  · have hlength : (Text.ofNat d.coefficient).length ≤ 16 := by
      refine (Nat.length_toDigits_le_iff (by decide) (by decide)).2 ?_
      exact hcoefficient.trans_lt (by decide)
    have hnotAbove : ¬310 < d.point := by
      rw [Decimal.point]
      omega
    have hnotBelow : ¬d.point < -400 := by
      rw [Decimal.point]
      omega
    rw [ofDecimal?, if_neg hzero, if_neg hnotAbove, if_neg hnotBelow]

/-- **An integer is scaled by a small power of ten as a decimal is read.** For an integer up to
`2 ^ 53` and powers from `10 ^ (-22)` to `10 ^ 22`, scaling gives the number nearest to the decimal,
although the power has been rounded on its own.

**Proof sketch.** The power is a number (`exists_tenTo?_eq`). So the product or the quotient is
rounded from the very value of the decimal, and so is the decimal (`ofDecimal?_eq_ofRatio?`). -/
theorem scaleByTen?_eq_ofDecimal? {n : Nat} {e : Int} (hn : n ≤ 2 ^ 53) (he : e.natAbs ≤ 22)
    (hx : x.magnitude = n) : x.scaleByTen? e = ofDecimal? ⟨x.negative, n, e⟩ := by
  obtain ⟨power, hpower, hsign, hmagnitude⟩ := exists_tenTo?_eq he
  have hden : 0 < 10 ^ (-e).toNat := Nat.pow_pos (by decide)
  have hnonzero : power.magnitude ≠ 0 := by
    rw [hmagnitude]
    positivity
  have hsame : (x.negative != power.negative) = x.negative := by rw [hsign, Bool.bne_false]
  rw [ofDecimal?_eq_ofRatio? hn he, scaleByTen?_of_le (by omega), hpower, Option.bind_some]
  by_cases hsigned : 0 ≤ e
  · have hpos : e.toNat = e.natAbs := by omega
    have hneg : (-e).toNat = 0 := by omega
    rw [if_pos hsigned, mul?_eq_ofRatio? hden, hsame]
    rw [hx, hmagnitude, hpos, hneg]
    push_cast
    rw [div_one]
  · have hpos : e.toNat = 0 := by omega
    have hneg : (-e).toNat = e.natAbs := by omega
    rw [if_neg hsigned, div?_eq_ofRatio? hden hnonzero, hsame]
    rw [hx, hmagnitude, hpos, hneg]
    push_cast
    rw [mul_one]

end RuleEditor.Binary64
