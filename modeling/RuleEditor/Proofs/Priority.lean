import RuleEditor.Priority
import RuleEditor.Proofs.Binary64.Order
import RuleEditor.Proofs.Json.Number

/-!
# Priorities of numbers

A priority comes as a number or as the text of one, and it is the same either way: the integer part
of the number, brought into the range of 64-bit integers. The two readers reach it by different
ways. A number is an integer or a floating-point number to begin with, while a text is tried as a
64-bit integer first and as a floating-point number otherwise; so an integer beyond the 64-bit range
is rounded on one way and not on the other, and is out of range on both.

## Main definitions

* `Json.Number.value` — the value of a number.
* `Priority.saturate` — the integer of the 64-bit range that is nearest to an integer.

## Main results

* `Priority.toInt_ofJson_num` — the priority of a number follows from its value.
* `Priority.exists_ofChars?_ofInt_of_le` — integers beyond the 64-bit range are read as such.
* `Priority.ofText_text` — the text of a number has the priority of the number.
* `Priority.ofText_padded_eq_ofJson` — so does the text with white space around it.
-/

set_option relaxedAutoImplicit false
set_option autoImplicit false

namespace RuleEditor

/-- The value of a number as a rational, be it an integer or a floating-point number. -/
def Json.Number.value : Json.Number → ℚ
  | .int n => n.val
  | .float x => x.value

namespace Priority

/-! ## Numbers -/

/-- The integer of the signed 64-bit range that is nearest to an integer. It is stated on integers,
so that nothing can overflow in what priorities are compared with. -/
def saturate (n : ℤ) : ℤ := max (-2 ^ 63) (min n (2 ^ 63 - 1))

/-- Integers in range are left alone. -/
lemma saturate_of_mem_range {n : ℤ} (hlower : -2 ^ 63 ≤ n) (hupper : n < 2 ^ 63) :
    saturate n = n := by
  unfold saturate
  omega

/-- Bringing an integer into range gives the nearest one there. -/
lemma toInt_ofIntClamp (n : ℤ) : (Int64.ofIntClamp n).toInt = saturate n := by
  have hmin : Int64.minValue.toInt = -2 ^ 63 := rfl
  have hmax : Int64.maxValue.toInt = 2 ^ 63 - 1 := rfl
  by_cases hlower : Int64.minValue.toInt ≤ n
  · by_cases hupper : n ≤ Int64.maxValue.toInt
    · rw [Int64.toInt_ofIntClamp hlower hupper, saturate_of_mem_range] <;> omega
    · rw [Int64.ofIntClamp, dif_pos hlower, dif_neg hupper, hmax, saturate]
      omega
  · rw [Int64.ofIntClamp, dif_neg hlower, hmin, saturate]
    omega

/-- All integers from the end of the range on are brought to it. -/
lemma ofIntClamp_of_le {n : ℤ} (h : 2 ^ 63 ≤ n) : Int64.ofIntClamp n = Int64.maxValue := by
  apply Int64.toInt.inj
  have hmax : Int64.maxValue.toInt = 2 ^ 63 - 1 := rfl
  rw [toInt_ofIntClamp, hmax, saturate]
  omega

/-- **The priority of a number** is the integer part of its value, brought into range. This
describes integers of either sign and floating-point numbers by one formula. -/
theorem toInt_ofJson_num (n : Json.Number) :
    (ofJson (.num n)).toInt = saturate (Binary64.towardZero n.value) := by
  cases n with
  | int n =>
    rw [Json.Number.value, Binary64.towardZero_intCast]
    exact toInt_ofIntClamp n.val
  | float x =>
    rw [Json.Number.value, ← Binary64.truncate_eq_towardZero]
    exact toInt_ofIntClamp x.truncate

/-! ## Texts of numbers -/

/-- The text of an integer beyond the signed 64-bit range is read as a number beyond it.

**Proof sketch.** The powers `2 ^ 63` and `2 ^ 64` are numbers, so that an integer between them is
read as a number between them. -/
theorem exists_ofChars?_ofInt_of_le {n : ℤ} (hlower : 2 ^ 63 ≤ n) (hupper : n ≤ 2 ^ 64) :
    ∃ x, Binary64.ofChars? (Text.ofInt n) = some x ∧ 2 ^ 63 ≤ x.truncate := by
  obtain ⟨low, -, hlow⟩ := Binary64.exists_magnitude_eq false le_rfl
    (show 2 ^ 52 < 2 ^ 53 by decide) (show 1085 ≤ 2044 by decide)
  obtain ⟨high, -, hhigh⟩ := Binary64.exists_magnitude_eq false le_rfl
    (show 2 ^ 52 < 2 ^ 53 by decide) (show 1086 ≤ 2044 by decide)
  have hmagnitude : (⟨decide (n < 0), n.natAbs, 0⟩ : Decimal).magnitude = n := by
    rw [Decimal.magnitude, zpow_zero, mul_one, Nat.cast_natAbs, abs_of_nonneg (by omega)]
  obtain ⟨x, hread, hsign, hle, -⟩ := Binary64.exists_ofDecimal?_between
    (d := ⟨decide (n < 0), n.natAbs, 0⟩) (x := low) (y := high)
    (by rw [hmagnitude, hlow]; norm_num; exact_mod_cast hlower)
    (by rw [hmagnitude, hhigh]; norm_num; exact_mod_cast hupper)
  refine ⟨x, ?_, ?_⟩
  · rw [Binary64.ofChars?, Binary64.ofChars?_ofInt, Option.bind_some, hread]
  · have hvalue : x.value = x.magnitude := by
      have hnegative : x.negative = false := by
        rw [hsign]
        exact decide_eq_false (by omega)
      rw [Binary64.value, hnegative, if_neg Bool.false_ne_true]
    rw [Binary64.truncate_eq_towardZero, hvalue, Binary64.towardZero_of_nonneg x.magnitude_nonneg,
      Int.le_floor]
    refine le_trans (le_of_eq ?_) hle
    rw [hlow]
    norm_num

/-- The text of an integer beyond the signed 64-bit range is no 64-bit integer. -/
lemma int64?_ofInt_of_le {n : ℤ} (h : 2 ^ 63 ≤ n) : Text.int64? (Text.ofInt n) = none := by
  rw [Text.int64?, Text.int?_ofInt, Option.bind_some, if_neg]
  rintro ⟨-, hlt⟩
  exact absurd h (not_le.2 hlt)

/-- **The text of a number has the priority of the number.**

**Proof sketch.** An integer of signed 64 bits is read as such, and an integer beyond is read as a
number beyond, which has the greatest priority as the integer itself has. The text of a
floating-point number is no integer and reads as that number. -/
theorem ofText_text (n : Json.Number) :
    ofText (String.ofList n.text) = ofJson (.num n) := by
  rw [ofText, String.toList_ofList, Json.Number.trimChars_text]
  cases n with
  | int n =>
    by_cases hrange : n.val < 2 ^ 63
    · obtain ⟨m, rfl⟩ := Json.Integer.exists_ofInt64_eq hrange
      have hint : Text.int64? (Json.Number.int (.ofInt64 m)).text = some m := Text.int64?_ofInt m
      simp only [hint]
      exact (Int64.ofIntClamp_toInt m).symm
    · have hle : 2 ^ 63 ≤ n.val := not_lt.1 hrange
      have hnone : Text.int64? (Json.Number.int n).text = none := int64?_ofInt_of_le hle
      obtain ⟨x, hfloat, hx⟩ := exists_ofChars?_ofInt_of_le hle n.upper.le
      have hread : Binary64.ofChars? (Json.Number.int n).text = some x := hfloat
      simp only [hnone, hread, ofIntClamp_of_le hx]
      exact (ofIntClamp_of_le hle).symm
  | float x =>
    have hnone : Text.int64? (Json.Number.float x).text = none := Json.Number.int64?_floatText x
    have hread : Binary64.ofChars? (Json.Number.float x).text = some x :=
      Json.Number.ofChars?_floatText x
    simp only [hnone, hread]
    rfl

/-- White space around a text does not change its priority. -/
lemma ofText_append_append {before after : String} (hbefore : Text.isBlank before = true)
    (hafter : Text.isBlank after = true) (s : String) :
    ofText (before ++ s ++ after) = ofText s := by
  have htrim := Text.trim_append_append hbefore hafter s
  have hchars : Text.trimChars (before ++ s ++ after).toList = Text.trimChars s.toList := by
    rw [← Text.toList_trim, htrim, Text.toList_trim]
  rw [ofText, hchars, ofText]

/-- **A number and its text have one priority**, whatever white space stands around the text. It is
the number itself if that is an integer of signed 64 bits, and in any case its integer part, brought
into range. So it does not matter whether a store holds priorities as numbers or as texts of
numbers. -/
theorem ofText_padded_eq_ofJson {before after : String} (hbefore : Text.isBlank before = true)
    (hafter : Text.isBlank after = true) (n : Json.Number) :
    ofText (before ++ String.ofList n.text ++ after) = ofJson (.num n) ∧
      (ofJson (.num n)).toInt = saturate (Binary64.towardZero n.value) ∧
      ∀ i : Json.Integer, n = .int i → i.val < 2 ^ 63 → (ofJson (.num n)).toInt = i.val := by
  refine ⟨?_, toInt_ofJson_num n, ?_⟩
  · rw [ofText_append_append hbefore hafter, ofText_text]
  · rintro i rfl hi
    rw [toInt_ofJson_num, Json.Number.value, Binary64.towardZero_intCast]
    exact saturate_of_mem_range i.lower hi

/-- The greatest integer of 64 bits, which is beyond the signed ones. -/
def greatestInteger : Json.Number := .int ⟨2 ^ 64 - 1, by decide, by decide⟩

/-- The text of that integer, with white space around it, has the greatest priority. -/
theorem ofText_padded_greatestInteger :
    Text.isBlank "\t" = true ∧ Text.isBlank "\u00a0\n" = true ∧
      String.ofList greatestInteger.text = "18446744073709551615" ∧
      ofText ("\t" ++ String.ofList greatestInteger.text ++ "\u00a0\n") = Int64.maxValue := by
  have hbefore : Text.isBlank "\t" = true := by decide
  have hafter : Text.isBlank "\u00a0\n" = true := by decide
  obtain ⟨hpriority, -, -⟩ := ofText_padded_eq_ofJson hbefore hafter greatestInteger
  have hgreatest : ofJson (.num greatestInteger) = Int64.maxValue :=
    ofIntClamp_of_le (show (2 : ℤ) ^ 63 ≤ 2 ^ 64 - 1 by decide)
  exact ⟨hbefore, hafter, by decide +kernel, hpriority.trans hgreatest⟩

end Priority

end RuleEditor
