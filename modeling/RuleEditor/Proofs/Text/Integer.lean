import Mathlib.Algebra.Group.Nat.Defs
import RuleEditor.Proofs.Text.Trim
import RuleEditor.Text.Integer

/-!
# Reading integers back

The text of an integer reads as that integer. The text has no white space, so that trimming leaves
it alone.

## Main results

* `Text.int?_ofInt` — the text of an integer reads as the integer.
* `Text.int64?_ofInt` — the same within 64 bits.
* `Text.trimChars_ofInt` — the text of an integer is trimmed.
-/

set_option relaxedAutoImplicit false
set_option autoImplicit false

namespace RuleEditor.Text

/-! ## Digits -/

/-- The text of a natural number holds digits only. -/
lemma isDigit_of_mem_ofNat {n : Nat} {c : Char} (hc : c ∈ ofNat n) : c.isDigit = true :=
  Nat.isDigit_of_mem_toDigits (by decide) (by decide) hc

/-- The text of a natural number is not empty. -/
lemma ofNat_ne_nil (n : Nat) : ofNat n ≠ [] := Nat.toDigits_ne_nil

/-- The value of the digits of a natural number. -/
lemma ofDigitChars_ofNat (n : Nat) : Nat.ofDigitChars 10 (ofNat n) 0 = n :=
  Nat.ofDigitChars_ten_toDigits

/-- A natural number other than zero lies between the powers of ten that the number of its digits
gives. -/
lemma length_ofNat_bounds {n : Nat} (h : n ≠ 0) :
    10 ^ ((ofNat n).length - 1) ≤ n ∧ n < 10 ^ (ofNat n).length := by
  have hpos : 0 < (ofNat n).length := Nat.length_toDigits_pos
  refine ⟨?_, (Nat.length_toDigits_le_iff (by decide) hpos).1 le_rfl⟩
  by_cases hone : (ofNat n).length = 1
  · rw [hone]
    omega
  · -- with one digit less the number would have to be smaller
    by_contra hlt
    have hle := (Nat.length_toDigits_le_iff (b := 10) (n := n) (k := (ofNat n).length - 1)
      (by decide) (by omega)).2 (by omega)
    exact absurd (show (ofNat n).length ≤ (ofNat n).length - 1 from hle) (by omega)

/-- A digit is no white space.

**Proof sketch.** The digits have the code points 48 to 57, and none of the ranges of white space
meets these. -/
lemma isSpace_eq_false_of_isDigit {c : Char} (hc : c.isDigit = true) : isSpace c = false := by
  have hval : 48 ≤ c.toNat ∧ c.toNat ≤ 57 := by
    simp only [Char.isDigit, Bool.and_eq_true, decide_eq_true_eq, ge_iff_le,
      UInt32.le_iff_toNat_le] at hc
    exact hc
  simp only [isSpace, spaceRanges, List.any_cons, List.any_nil, Bool.or_false, Bool.or_eq_false_iff,
    decide_eq_false_iff_not]
  omega

/-- A digit is no sign. -/
lemma sign_of_isDigit {c : Char} {rest : List Char} (hc : c.isDigit = true) :
    sign (c :: rest) = (false, c :: rest) := by
  have hminus : c ≠ '-' := by rintro rfl; exact absurd hc (by decide)
  have hplus : c ≠ '+' := by rintro rfl; exact absurd hc (by decide)
  unfold sign
  split
  · next h => exact absurd (List.cons.inj h).1 hminus
  · next h => exact absurd (List.cons.inj h).1 hplus
  · rfl

/-- The text of a natural number has no sign. -/
lemma sign_ofNat (n : Nat) : sign (ofNat n) = (false, ofNat n) := by
  cases h : ofNat n with
  | nil => exact absurd h (ofNat_ne_nil n)
  | cons c rest => exact sign_of_isDigit (isDigit_of_mem_ofNat (n := n) (by simp [h]))

/-! ## Integers -/

/-- The text of an integer reads as the integer. Reading accepts other texts too, with a plus sign
or leading zeros. -/
theorem int?_ofInt (n : Int) : int? (ofInt n) = some n := by
  by_cases hneg : n < 0
  · have hsign : sign (ofInt n) = (true, ofNat n.natAbs) := by simp [ofInt, hneg, sign]
    rw [int?, hsign, digits?_ofNat]
    show some (-(n.natAbs : Int)) = some n
    rw [Option.some.injEq]
    omega
  · have hsign : sign (ofInt n) = (false, ofNat n.natAbs) := by
      simp only [ofInt, hneg, ↓reduceIte, sign_ofNat]
    rw [int?, hsign, digits?_ofNat]
    show some (n.natAbs : Int) = some n
    rw [Option.some.injEq]
    omega

/-- The text of a 64-bit integer reads as the integer, whose value fits by its type. -/
theorem int64?_ofInt (n : Int64) : int64? (ofInt n.toInt) = some n := by
  have hrange : -2 ^ 63 ≤ n.toInt ∧ n.toInt < 2 ^ 63 := ⟨n.le_toInt, n.toInt_lt⟩
  rw [int64?, int?_ofInt, Option.bind_some, if_pos hrange, Int64.ofInt_toInt]

/-- The characters of an integer's text are digits, but for a minus sign in front. -/
lemma mem_ofInt {n : Int} {c : Char} (hc : c ∈ ofInt n) : c = '-' ∨ c.isDigit = true := by
  unfold ofInt at hc
  split at hc
  · rcases List.mem_cons.1 hc with rfl | hc
    · exact .inl rfl
    · exact .inr (isDigit_of_mem_ofNat hc)
  · exact .inr (isDigit_of_mem_ofNat hc)

/-- No character of an integer's text is white space. -/
lemma isSpace_of_mem_ofInt {n : Int} {c : Char} (hc : c ∈ ofInt n) : isSpace c = false := by
  rcases mem_ofInt hc with rfl | hdigit
  · decide
  · exact isSpace_eq_false_of_isDigit hdigit

/-- The text of an integer is trimmed. -/
theorem trimChars_ofInt (n : Int) : trimChars (ofInt n) = ofInt n :=
  trimChars_eq_self (fun _ hc => isSpace_of_mem_ofInt (List.mem_of_mem_head? hc))
    (fun _ hc => isSpace_of_mem_ofInt (List.mem_of_mem_getLast? hc))

/-- The text of an integer is not empty. -/
lemma ofInt_ne_nil (n : Int) : ofInt n ≠ [] := by
  unfold ofInt
  split
  · exact List.cons_ne_nil _ _
  · exact ofNat_ne_nil _

end RuleEditor.Text
