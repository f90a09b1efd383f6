import RuleEditor.Binary64.Shortest
import RuleEditor.Proofs.Binary64.Rounding
import RuleEditor.Proofs.Decimal.Reading

/-!
# Reading numbers back

Reading a decimal depends on its sign and its magnitude alone, and a decimal that has the value of a
number reads as that number. So does the shortest decimal of a number, and with it every text that
is written of that decimal. Integers up to `2 ^ 53` are numbers and lose nothing as such.

## Main results

* `Binary64.ofDecimal?_congr` — decimals of one sign and one magnitude are read alike.
* `Binary64.ofDecimal?_eq_some` — a decimal with the value of a number reads as the number.
* `Binary64.ofChars?_render_shortest` — the text of the shortest decimal of a number reads as the
  number.
* `Binary64.exists_ofChars?_ofInt` — the text of an integer up to `2 ^ 53` reads as a number whose
  exact integer value is that integer.
-/

set_option relaxedAutoImplicit false
set_option autoImplicit false

namespace RuleEditor

namespace Decimal

/-- The fraction that is rounded when a decimal is read is the magnitude of the decimal. A power of
ten goes into its numerator or its denominator. -/
lemma ratio_eq_magnitude (d : Decimal) :
    ((d.coefficient * 10 ^ d.exponent.toNat : ℕ) : ℚ) / ((10 ^ (-d.exponent).toNat : ℕ) : ℚ) =
      d.magnitude := by
  rw [magnitude, Binary64.zpow_eq_div]
  push_cast
  ring

/-- The magnitude is zero exactly if the coefficient is. -/
lemma magnitude_eq_zero_iff (d : Decimal) : d.magnitude = 0 ↔ d.coefficient = 0 := by
  rw [magnitude, mul_eq_zero, Nat.cast_eq_zero]
  exact or_iff_left (zpow_pos (by norm_num) _).ne'

/-- The magnitude of a decimal other than zero is positive. -/
lemma magnitude_pos {d : Decimal} (h : d.coefficient ≠ 0) : 0 < d.magnitude :=
  lt_of_lt_of_le (zpow_pos (by norm_num) _) (magnitude_bounds h).1

/-- The decimal point follows from the magnitude. -/
lemma point_eq {d : Decimal} (h : d.coefficient ≠ 0) : d.point = Int.log 10 d.magnitude + 1 := by
  have hpos := magnitude_pos h
  obtain ⟨hlower, hupper⟩ := magnitude_bounds h
  have hle : d.point - 1 ≤ Int.log 10 d.magnitude :=
    (Int.zpow_le_iff_le_log (by norm_num) hpos).1 (by simpa using hlower)
  have hlt : Int.log 10 d.magnitude < d.point :=
    (Int.lt_zpow_iff_log_lt (by norm_num) hpos).1 (by simpa using hupper)
  omega

end Decimal

namespace Binary64

/-! ## Reading decimals -/

/-- Decimals of one sign and one magnitude are read alike, however the magnitude is split into a
coefficient and a power of ten. The guards against huge powers depend on the magnitude alone, too,
since the decimal point does. -/
theorem ofDecimal?_congr {d d' : Decimal} (hsign : d.negative = d'.negative)
    (hmagnitude : d.magnitude = d'.magnitude) : ofDecimal? d = ofDecimal? d' := by
  have hzero : d.coefficient = 0 ↔ d'.coefficient = 0 := by
    rw [← d.magnitude_eq_zero_iff, hmagnitude, d'.magnitude_eq_zero_iff]
  by_cases h : d.coefficient = 0
  · simp only [ofDecimal?, h, hzero.1 h, hsign, ↓reduceIte]
  · have h' : d'.coefficient ≠ 0 := fun e => h (hzero.2 e)
    have hpoint : d.point = d'.point := by
      rw [Decimal.point_eq h, Decimal.point_eq h', hmagnitude]
    have hrank : nearestRank (d.coefficient * 10 ^ d.exponent.toNat) (10 ^ (-d.exponent).toNat) =
        nearestRank (d'.coefficient * 10 ^ d'.exponent.toNat) (10 ^ (-d'.exponent).toNat) := by
      apply nearestRank_congr (Nat.pow_pos (by decide)) (Nat.pow_pos (by decide))
      rw [d.ratio_eq_magnitude, d'.ratio_eq_magnitude, hmagnitude]
    simp only [ofDecimal?, h, h', hpoint, hsign, ↓reduceIte, ofRatio?, hrank]

/-- The numbers other than zero lie between the powers of ten at which reading gives up.

**Proof sketch.** The least number is `2 ^ (-1074)` and all numbers are below `2 ^ 1024`. -/
lemma magnitude_mem_range {x : Binary64} (h : x.rank ≠ 0) :
    (10 : ℚ) ^ (-400 : ℤ) ≤ x.magnitude ∧ x.magnitude < (10 : ℚ) ^ (309 : ℤ) := by
  have hscale := x.scale_ge
  have hscale' := x.scale_le
  have hleast : (2 : ℚ) ^ 1074 ≤ 10 ^ 400 := by
    exact_mod_cast (by decide +kernel : 2 ^ 1074 ≤ 10 ^ 400)
  have hgreatest : (2 : ℚ) ^ 1024 ≤ 10 ^ 309 := by
    exact_mod_cast (by decide +kernel : 2 ^ 1024 ≤ 10 ^ 309)
  constructor
  · calc (10 : ℚ) ^ (-400 : ℤ) ≤ 1 * (2 : ℚ) ^ (-1074 : ℤ) := by
          rw [one_mul, zpow_neg, zpow_neg]
          exact inv_anti₀ (zpow_pos two_pos _) hleast
      _ ≤ 1 * (2 : ℚ) ^ x.scale :=
          mul_le_mul_of_nonneg_left (zpow_le_zpow_right₀ one_le_two hscale) zero_le_one
      _ ≤ x.significand * (2 : ℚ) ^ x.scale :=
          mul_le_mul_of_nonneg_right (by exact_mod_cast significand_pos h)
            (zpow_pos two_pos _).le
  · calc x.magnitude < (2 : ℚ) ^ (x.scale + 53) := x.magnitude_lt
      _ ≤ (2 : ℚ) ^ (1024 : ℤ) := zpow_le_zpow_right₀ one_le_two (by omega)
      _ ≤ (10 : ℚ) ^ (309 : ℤ) := hgreatest

/-- A decimal that has the sign and the magnitude of a number reads as that number: rounding is
exact there, and no guard stands in the way. -/
theorem ofDecimal?_eq_some {d : Decimal} {x : Binary64} (hsign : d.negative = x.negative)
    (hmagnitude : d.magnitude = x.magnitude) : ofDecimal? d = some x := by
  by_cases hzero : x.rank = 0
  · have hcoefficient : d.coefficient = 0 := by
      rw [← d.magnitude_eq_zero_iff, hmagnitude, magnitude, significand, hzero]
      simp
    obtain ⟨negative, rank, hlt⟩ := x
    simp only at hzero hsign
    subst hzero
    simp only [ofDecimal?, hcoefficient, hsign, zero, ↓reduceIte]
  · have hcoefficient : d.coefficient ≠ 0 := by
      rw [ne_eq, ← d.magnitude_eq_zero_iff, hmagnitude]
      exact (magnitude_pos hzero).ne'
    obtain ⟨hlower, hupper⟩ := magnitude_mem_range hzero
    have hpos := magnitude_pos hzero
    have hlogLower : (-400 : ℤ) ≤ Int.log 10 x.magnitude :=
      (Int.zpow_le_iff_le_log (by norm_num) hpos).1 (by simpa using hlower)
    have hlogUpper : Int.log 10 x.magnitude < 309 :=
      (Int.lt_zpow_iff_log_lt (by norm_num) hpos).1 (by simpa using hupper)
    have hpoint : d.point = Int.log 10 x.magnitude + 1 := by
      rw [Decimal.point_eq hcoefficient, hmagnitude]
    have hrank : nearestRank (d.coefficient * 10 ^ d.exponent.toNat)
        (10 ^ (-d.exponent).toNat) = x.rank :=
      nearestRank_eq_rank (Nat.pow_pos (by decide)) (by rw [d.ratio_eq_magnitude, hmagnitude])
    have hnotAbove : ¬310 < d.point := by omega
    have hnotBelow : ¬d.point < -400 := by omega
    simp only [ofDecimal?, hcoefficient, hnotAbove, hnotBelow, ↓reduceIte, ofRatio?, hrank,
      x.rank_lt, ↓reduceDIte, hsign]

/-! ## Reading what was written -/

/-- The exact decimal of a number has its magnitude. -/
lemma magnitude_exactDecimal (x : Binary64) : x.exactDecimal.magnitude = x.magnitude := by
  unfold exactDecimal
  split
  · next hscale =>
    rw [Decimal.magnitude, zpow_zero, mul_one, magnitude, zpow_eq_div]
    have hneg : (-x.scale).toNat = 0 := by omega
    rw [hneg]
    push_cast
    ring
  · next hscale =>
    have htoNat : x.scale.toNat = 0 := by omega
    have hten : (10 : ℚ) ^ (-x.scale).toNat = 2 ^ (-x.scale).toNat * 5 ^ (-x.scale).toNat := by
      rw [← mul_pow]
      norm_num
    rw [Decimal.magnitude, zpow_eq_div, magnitude, zpow_eq_div, htoNat, hten]
    push_cast
    field_simp

/-- The shortest decimal of a number reads as the number: it was searched for as such, or is the
exact one. -/
lemma ofDecimal?_shortest (x : Binary64) : ofDecimal? x.shortest = some x := by
  unfold shortest
  split
  · next hzero =>
    refine ofDecimal?_eq_some rfl ?_
    have hrank : x.rank = 0 := by simpa [isZero] using hzero
    simp [Decimal.magnitude, magnitude, significand, hrank]
  · next hzero =>
    have hexact : x.exactDecimal.negative = x.negative := by
      unfold exactDecimal
      split <;> rfl
    show ofDecimal? (Option.getD _ x.exactDecimal) = some x
    generalize hsearch : (List.range 17).findSome? _ = found
    cases found with
    | none => exact ofDecimal?_eq_some hexact (magnitude_exactDecimal x)
    | some d =>
      obtain ⟨n, -, hfound⟩ := List.exists_of_findSome?_eq_some hsearch
      simpa using List.find?_some hfound

/-- **The shortest text of a number reads as the number**, whatever the layout. The text reads as a
decimal of the same magnitude as the shortest one, though perhaps with another exponent. -/
theorem ofChars?_render_shortest (layout : Decimal.Layout) (x : Binary64) :
    ofChars? (x.shortest.render layout) = some x := by
  obtain ⟨d, hread, hsign, hmagnitude⟩ := Decimal.ofChars?_render layout x.shortest
  rw [ofChars?, hread, Option.bind_some, ofDecimal?_congr hsign hmagnitude, ofDecimal?_shortest]

/-! ## Integers -/

/-- An integer with a significand of 53 bits, times a power of two in range, is the magnitude of a
number. -/
lemma exists_magnitude_eq (negative : Bool) {q k : Nat} (hlower : 2 ^ 52 ≤ q)
    (hupper : q < 2 ^ 53) (hk : k ≤ 2044) :
    ∃ x : Binary64, x.negative = negative ∧ x.magnitude = q * (2 : ℚ) ^ ((k : ℤ) - 1074) := by
  have hrank : k * 2 ^ 52 + q < 2047 * 2 ^ 52 := by omega
  refine ⟨⟨negative, k * 2 ^ 52 + q, hrank⟩, rfl, ?_⟩
  have hnormal : ¬k * 2 ^ 52 + q < 2 ^ 52 := by omega
  have hsignificand : 2 ^ 52 + (k * 2 ^ 52 + q) % 2 ^ 52 = q := by omega
  have hscale : (((k * 2 ^ 52 + q) / 2 ^ 52 : ℕ) : ℤ) - 1075 = (k : ℤ) - 1074 := by omega
  simp only [magnitude, significand, scale, hnormal, hsignificand, hscale, ↓reduceIte]

/-- The integers up to `2 ^ 53` are magnitudes of numbers. -/
lemma exists_magnitude_eq_natCast (negative : Bool) {n : Nat} (h : n ≤ 2 ^ 53) :
    ∃ x : Binary64, x.negative = negative ∧ x.magnitude = n := by
  rcases Nat.eq_zero_or_pos n with rfl | hpos
  · exact ⟨zero negative, rfl, by simp [magnitude, zero, significand]⟩
  rcases h.lt_or_eq with hlt | rfl
  · have hlog : n.log2 < 53 := (Nat.log2_lt hpos.ne').2 hlt
    have hlower : 2 ^ 52 ≤ n * 2 ^ (52 - n.log2) :=
      calc 2 ^ 52 = 2 ^ n.log2 * 2 ^ (52 - n.log2) := by rw [← Nat.pow_add]; congr 1; omega
        _ ≤ n * 2 ^ (52 - n.log2) := Nat.mul_le_mul_right _ (Nat.log2_self_le hpos.ne')
    have hupper : n * 2 ^ (52 - n.log2) < 2 ^ 53 :=
      calc n * 2 ^ (52 - n.log2) < 2 ^ (n.log2 + 1) * 2 ^ (52 - n.log2) :=
            Nat.mul_lt_mul_of_pos_right Nat.lt_log2_self (Nat.pow_pos two_pos)
        _ = 2 ^ 53 := by rw [← Nat.pow_add]; congr 1; omega
    obtain ⟨x, hsign, hmagnitude⟩ :=
      exists_magnitude_eq negative hlower hupper (show n.log2 + 1022 ≤ 2044 by omega)
    refine ⟨x, hsign, ?_⟩
    have hexponent : ((n.log2 + 1022 : ℕ) : ℤ) - 1074 = -((52 - n.log2 : ℕ) : ℤ) := by omega
    rw [hmagnitude, hexponent, zpow_neg, zpow_natCast]
    push_cast
    field_simp
  · obtain ⟨x, hsign, hmagnitude⟩ :=
      exists_magnitude_eq negative le_rfl (show 2 ^ 52 < 2 ^ 53 by decide)
        (show 1075 ≤ 2044 by decide)
    exact ⟨x, hsign, by rw [hmagnitude]; norm_num⟩

/-- A number of an integer magnitude up to `2 ^ 53` has that integer as its exact value. -/
lemma exactInt?_eq_some {x : Binary64} {n : Int64} (h : n.toInt.natAbs ≤ 2 ^ 53)
    (hsign : x.negative = decide (n.toInt < 0)) (hmagnitude : x.magnitude = n.toInt.natAbs) :
    x.exactInt? = some n := by
  have hnumerator : x.numerator = n.toInt.natAbs * x.denominator := by
    have hpos : (x.denominator : ℚ) ≠ 0 := by exact_mod_cast x.denominator_pos.ne'
    rw [← numerator_div_denominator, div_eq_iff hpos] at hmagnitude
    exact_mod_cast hmagnitude
  have hdiv : x.numerator / x.denominator = n.toInt.natAbs := by
    rw [hnumerator, Nat.mul_div_cancel _ x.denominator_pos]
  have hwhole : x.isWhole = true := by
    rw [isWhole, hnumerator, Nat.mul_mod_left]
    rfl
  have htruncate : x.truncate = n.toInt := by
    simp only [truncate, hdiv, hsign, decide_eq_true_eq]
    split <;> omega
  rw [exactInt?, if_pos ⟨hwhole, hdiv ▸ h⟩, htruncate, Int64.ofIntClamp_toInt]

/-- The exact integer value of a number is at most `2 ^ 53` in magnitude. -/
lemma natAbs_le_of_exactInt? {x : Binary64} {n : Int64} (h : x.exactInt? = some n) :
    n.toInt.natAbs ≤ 2 ^ 53 := by
  unfold exactInt? at h
  split_ifs at h with hexact
  obtain rfl := Option.some.inj h
  have htruncate : x.truncate.natAbs ≤ 2 ^ 53 := by
    have hnatAbs : x.truncate.natAbs = x.numerator / x.denominator := by
      simp only [truncate]
      split
      · rw [Int.natAbs_neg, Int.natAbs_natCast]
      · rw [Int.natAbs_natCast]
    rw [hnatAbs]
    exact hexact.2
  have hlower : Int64.minValue.toInt ≤ x.truncate := by
    rw [show Int64.minValue.toInt = -2 ^ 63 from rfl]
    omega
  have hupper : x.truncate ≤ Int64.maxValue.toInt := by
    rw [show Int64.maxValue.toInt = 2 ^ 63 - 1 from rfl]
    omega
  rw [Int64.toInt_ofIntClamp hlower hupper]
  exact htruncate

/-- The text of an integer reads as a decimal without exponent. -/
lemma ofChars?_ofInt (n : Int) :
    Decimal.ofChars? (Text.ofInt n) = some ⟨decide (n < 0), n.natAbs, 0⟩ := by
  have hsign : Text.sign (Text.ofInt n) = (decide (n < 0), Text.ofNat n.natAbs ++ []) := by
    rw [List.append_nil, Text.ofInt]
    by_cases hneg : n < 0
    · simp only [hneg, ↓reduceIte, decide_true, Text.sign]
    · simp only [hneg, ↓reduceIte, decide_false, Text.sign_ofNat]
  have hread := Decimal.ofChars?_of_parts (e := 0) hsign
    (fun c hc => Text.isDigit_of_mem_ofNat hc) (Text.ofNat_ne_nil _) (by simp)
    (show Decimal.fraction [] = ([], []) from rfl) rfl
  simpa [Text.ofDigitChars_ofNat] using hread

/-- The text of an integer up to `2 ^ 53` reads as a number that has the integer as its exact value.
Beyond, two integers may read as one number. -/
theorem exists_ofChars?_ofInt {n : Int64} (h : n.toInt.natAbs ≤ 2 ^ 53) :
    ∃ x, ofChars? (Text.ofInt n.toInt) = some x ∧ x.exactInt? = some n := by
  obtain ⟨x, hsign, hmagnitude⟩ := exists_magnitude_eq_natCast (decide (n.toInt < 0)) h
  refine ⟨x, ?_, exactInt?_eq_some h hsign hmagnitude⟩
  rw [ofChars?, ofChars?_ofInt, Option.bind_some]
  exact ofDecimal?_eq_some hsign.symm (by rw [hmagnitude, Decimal.magnitude, zpow_zero, mul_one])

end Binary64

end RuleEditor
