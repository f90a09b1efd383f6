import RuleEditor.Json.Literal
import RuleEditor.Proofs.Binary64.Scaling

/-!
# What number literals say

The value of a literal is computed from the digits that fit 64 bits, and with a rounded power of
ten. Two kinds of literals lose nothing that way. A literal that spells out an integer of 64 bits is
that integer; and a literal of which the significand is at most `2 ^ 53` and the power of ten small
is the number nearest to it, as if it had been read exactly.

## Main definitions

* `Json.Literal.decimal` — the decimal that a literal spells out.

## Main results

* `Json.Literal.takeDigits_eq` — digits that fit are all taken up.
* `Json.Literal.value?_eq_int` — the literal of an integer of 64 bits has that integer as its value.
* `Json.Literal.scaled?_eq_ofDecimal?`, `Json.Literal.value?_eq_ofDecimal?` — a literal with a small
  significand and a small power of ten is read as the nearest number.
-/

set_option relaxedAutoImplicit false
set_option autoImplicit false

namespace RuleEditor.Json.Literal

/-! ## Digits -/

/-- More digits do not make a natural number smaller. -/
lemma le_ofDigitChars (n : Nat) (cs : List Char) : n ≤ Nat.ofDigitChars 10 cs n := by
  induction cs generalizing n with
  | nil => exact le_rfl
  | cons c rest ih =>
    rw [Nat.ofDigitChars_cons]
    exact (by omega : n ≤ 10 * n + (c.toNat - '0'.toNat)).trans (ih _)

/-- **Digits that fit are all taken up.** If the digits make a natural number of 64 bits, it is the
one that is taken up, and nothing is left. -/
theorem takeDigits_eq {n : Nat} {cs : List Char} (h : Nat.ofDigitChars 10 cs n < 2 ^ 64) :
    takeDigits n cs = (Nat.ofDigitChars 10 cs n, []) := by
  induction cs generalizing n with
  | nil => rfl
  | cons c rest ih =>
    rw [Nat.ofDigitChars_cons] at h ⊢
    have hnext : n * 10 + (c.toNat - '0'.toNat) < 2 ^ 64 := by
      rw [Nat.mul_comm]
      exact (le_ofDigitChars _ rest).trans_lt h
    rw [takeDigits, if_pos hnext, Nat.mul_comm n 10, ih h]

variable {l : Literal}

/-- The decimal that a literal spells out. -/
def decimal (l : Literal) : Decimal :=
  ⟨l.negative, Nat.ofDigitChars 10 (l.whole ++ l.fraction.getD []) 0,
    l.exponent.getD 0 - (l.fraction.getD []).length⟩

/-- If all digits fit, they are the significand, and the scale is the power of ten that goes with
them. -/
lemma significand_and_scale_eq (h : l.decimal.coefficient < 2 ^ 64) :
    l.significand = l.decimal.coefficient ∧ l.scale = l.decimal.exponent := by
  simp only [decimal, Nat.ofDigitChars_append] at h
  have hwhole := takeDigits_eq ((le_ofDigitChars _ (l.fraction.getD [])).trans_lt h)
  have hfraction := takeDigits_eq h
  constructor
  · simp only [significand, hwhole, hfraction, decimal, Nat.ofDigitChars_append]
  · simp only [scale, hwhole, hfraction, decimal, List.length_nil]
    omega

/-! ## Values -/

/-- **The literal of an integer of 64 bits has that integer as its value.** The digits fit and are
all taken up, so that no rounding comes in; and zero, which has no minus sign, is an integer too. -/
theorem value?_eq_int (n : Integer) :
    value? ⟨decide (n.val < 0), Text.ofNat n.val.natAbs, none, none⟩ = some (.int n) := by
  have hlower := n.lower
  have hupper := n.upper
  have hdigits := Text.ofDigitChars_ofNat n.val.natAbs
  have htake := @takeDigits_eq 0 (Text.ofNat n.val.natAbs) (by omega)
  rw [hdigits] at htake
  have hinteger : integer? ⟨decide (n.val < 0), Text.ofNat n.val.natAbs, none, none⟩ = some n := by
    simp only [integer?, significand, htake, takeDigits, Option.getD_none, decide_eq_true_eq]
    by_cases hneg : n.val < 0
    · have hval : -(n.val.natAbs : ℤ) = n.val := by omega
      rw [if_pos hneg, if_neg (by omega), hval, Integer.ofInt?, dif_pos ⟨hlower, hupper⟩]
    · have hval : (n.val.natAbs : ℤ) = n.val := by omega
      rw [if_neg hneg, hval, Integer.ofInt?, dif_pos ⟨hlower, hupper⟩]
  simp only [value?, isInteger, htake, hinteger, Option.isNone_none, List.isEmpty_nil,
    Bool.and_true, ↓reduceIte]

/-- A significand up to `2 ^ 53` with a small power of ten is rounded once: it is a number itself,
and so is the power. -/
theorem scaled?_eq_ofDecimal? (hsignificand : l.significand ≤ 2 ^ 53)
    (hscale : l.scale.natAbs ≤ 22) :
    l.scaled? = Binary64.ofDecimal? ⟨l.negative, l.significand, l.scale⟩ := by
  obtain ⟨x, hsign, hmagnitude⟩ := Binary64.exists_magnitude_eq_natCast l.negative hsignificand
  have hround : Binary64.ofRatio? l.negative l.significand 1 = some x := by
    rw [← hsign]
    exact Binary64.ofRatio?_eq_some one_pos (by rw [hmagnitude, Nat.cast_one, div_one])
  rw [scaled?, hround, Option.bind_some, ← hsign]
  exact Binary64.scaleByTen?_eq_ofDecimal? hsignificand hscale hmagnitude

/-- **Literals of up to fifteen digits are read as the nearest numbers**, if the power of ten is
small: a literal with a fraction or an exponent is read as a decimal is, if its digits make a number
up to `2 ^ 53` and its power of ten lies between `10 ^ (-22)` and `10 ^ 22`. -/
theorem value?_eq_ofDecimal? (hfloat : l.fraction ≠ none ∨ l.exponent ≠ none)
    (hcoefficient : l.decimal.coefficient ≤ 2 ^ 53) (hexponent : l.decimal.exponent.natAbs ≤ 22) :
    l.value? = (Binary64.ofDecimal? l.decimal).map .float := by
  obtain ⟨hsignificand, hscale⟩ := significand_and_scale_eq (hcoefficient.trans_lt (by decide))
  have hnotInteger : l.isInteger = false := by
    rcases hfloat with h | h <;> simp [isInteger, h]
  have hscaled := scaled?_eq_ofDecimal? (hsignificand ▸ hcoefficient) (hscale ▸ hexponent)
  rw [hsignificand, hscale] at hscaled
  rw [value?, hnotInteger, if_neg Bool.false_ne_true, hscaled]
  rfl

-- the bound is needed: this literal of sixteen digits is read as the number above the nearest one
example : scaled? ⟨false, ['0'], some "9452706955539223".toList, none⟩ ≠
    Binary64.ofDecimal? ⟨false, 9452706955539223, -16⟩ := by
  simp (disch := decide) only [scaled?, Binary64.scaleByTen?_of_le]
  decide +kernel

end RuleEditor.Json.Literal
