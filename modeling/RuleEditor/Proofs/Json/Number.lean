import RuleEditor.Json.Number
import RuleEditor.Proofs.Binary64.Reading

/-!
# Numbers as they are edited

A number is edited as a text without white space. The text of a number that is an integer of signed
64 bits, or a floating-point number that is not edited as an integer, reads as that number again;
these are the canonical numbers, and reading a text gives no others.

## Main definitions

* `Json.Number.IsCanonical` — the numbers that come back from their texts.
* `Json.Number.IsWholeFloat` — the floating-point numbers that are edited as integers.

## Main results

* `Json.Number.ofChars?_floatText` — the text of a floating-point number reads as the number.
* `Json.Number.int64?_floatText` — that text is no integer.
* `Json.Number.trimChars_display` — the text of a number is trimmed.
* `Json.Number.display_eq_text_iff` — which numbers are edited as they are written.
* `Json.Number.isCanonical_ofBinary64` — what a text with a number becomes is canonical.
* `Json.Number.same_iff` — a canonical number has the value of no other number.
-/

set_option relaxedAutoImplicit false
set_option autoImplicit false

namespace RuleEditor

namespace Binary64

/-- The numbers without exact integer value are those that have a fraction or are above `2 ^ 53` in
magnitude. -/
lemma exactInt?_eq_none_iff {x : Binary64} :
    x.exactInt? = none ↔ ¬(x.isWhole = true ∧ x.numerator / x.denominator ≤ 2 ^ 53) := by
  unfold exactInt?
  split <;> simp_all

end Binary64

namespace Json

/-- A signed integer of 64 bits is given by its value. -/
lemma Integer.exists_ofInt64_eq {n : Integer} (h : n.val < 2 ^ 63) : ∃ m, ofInt64 m = n := by
  obtain ⟨val, hlower, hupper⟩ := n
  have hmin : Int64.minValue.toInt ≤ val := hlower
  have hmax : val ≤ Int64.maxValue.toInt := Int.le_of_lt_add_one h
  refine ⟨Int64.ofIntClamp val, ?_⟩
  simp only [ofInt64, Int64.toInt_ofIntClamp hmin hmax]

namespace Number

/-- A number that comes back from the text in which it is edited: an integer of signed 64 bits, or a
floating-point number that has a fraction or is above `2 ^ 53` in magnitude. -/
def IsCanonical : Number → Prop
  | .int n => n.val < 2 ^ 63
  | .float x => ¬(x.isWhole = true ∧ x.numerator / x.denominator ≤ 2 ^ 53)

/-- A signed integer of 64 bits is canonical. -/
lemma isCanonical_ofInt64 (n : Int64) : (ofInt64 n).IsCanonical := n.toInt_lt

/-- What a floating-point number becomes that was read from a text is canonical. So the texts of
numbers reach a fixed form after one reading. -/
theorem isCanonical_ofBinary64 (x : Binary64) : (ofBinary64 x).IsCanonical := by
  unfold ofBinary64
  split
  · exact isCanonical_ofInt64 _
  · next h => exact Binary64.exactInt?_eq_none_iff.1 h

/-! ## Texts -/

/-- The text of a floating-point number reads as the number: it is laid out from the shortest
decimal that does. -/
theorem ofChars?_floatText (x : Binary64) : Binary64.ofChars? (floatText x) = some x :=
  Binary64.ofChars?_render_shortest floatLayout x

/-- The text of a floating-point number is no integer: it has a point or an exponent. A reader that
tries integers first therefore keeps the kind of such a number. -/
theorem int64?_floatText (x : Binary64) : Text.int64? (floatText x) = none := by
  rw [Text.int64?, floatText, Decimal.int?_render, Option.bind_none]

/-- The text of a number has no white space. -/
lemma isSpace_of_mem_text {n : Number} {c : Char} (hc : c ∈ n.text) : Text.isSpace c = false := by
  cases n with
  | int n => exact Text.isSpace_of_mem_ofInt hc
  | float x => exact Decimal.isSpace_of_mem_render hc

/-- The text of a number is not empty. -/
lemma text_ne_nil (n : Number) : n.text ≠ [] := by
  cases n with
  | int n => exact Text.ofInt_ne_nil _
  | float x =>
    intro hnil
    have hread := ofChars?_floatText x
    rw [show floatText x = [] from hnil] at hread
    have hnone : Binary64.ofChars? [] = none := rfl
    rw [hnone] at hread
    exact absurd hread.symm (Option.some_ne_none x)

/-- A number is edited in the text of a number, be it itself or the integer that it equals. -/
lemma exists_display_eq_text (n : Number) : ∃ m : Number, n.display = m.text := by
  cases n with
  | int n => exact ⟨.int n, rfl⟩
  | float x => exact ⟨ofBinary64 x, rfl⟩

/-- The text of a number is trimmed. -/
lemma trimChars_text (n : Number) : Text.trimChars n.text = n.text :=
  Text.trimChars_eq_self (fun _ hc => isSpace_of_mem_text (List.mem_of_mem_head? hc))
    (fun _ hc => isSpace_of_mem_text (List.mem_of_mem_getLast? hc))

/-- The text in which a number is edited is trimmed. Trimming an edited value therefore changes
nothing unless it was edited. -/
theorem trimChars_display (n : Number) : Text.trimChars n.display = n.display := by
  obtain ⟨m, hm⟩ := n.exists_display_eq_text
  rw [hm, trimChars_text]

/-- The text in which a number is edited counts as it is. -/
lemma nonBlank?_display (n : Number) :
    Text.nonBlank? (String.ofList n.display) = some (String.ofList n.display) := by
  apply Text.nonBlank?_of_trim_eq
  · rw [Text.trim, String.toList_ofList, trimChars_display]
  · obtain ⟨m, hm⟩ := n.exists_display_eq_text
    rw [hm, ne_eq, ← String.toList_eq_nil_iff, String.toList_ofList]
    exact text_ne_nil m

/-- A canonical floating-point number is edited in its own text. -/
lemma display_float {x : Binary64} (h : (float x).IsCanonical) :
    (float x).display = floatText x := by
  simp only [display, ofBinary64, Binary64.exactInt?_eq_none_iff.2 h, text]

/-- A floating-point number without fraction that is at most `2 ^ 53` in magnitude. These are the
numbers that change from one kind to the other when they are edited. -/
def IsWholeFloat : Number → Prop
  | .int _ => False
  | .float x => x.isWhole = true ∧ x.numerator / x.denominator ≤ 2 ^ 53

/-- **A number is edited in the text in which it is written unless it is a whole floating-point
number up to `2 ^ 53`.** Such a number is written with a fraction and edited as an integer, and no
text is both. -/
theorem display_eq_text_iff (n : Number) : n.display = n.text ↔ ¬n.IsWholeFloat := by
  cases n with
  | int n => exact ⟨fun _ => id, fun _ => rfl⟩
  | float x =>
    refine ⟨fun h hwhole => ?_, fun h => display_float h⟩
    cases hexact : x.exactInt? with
    | none => exact Binary64.exactInt?_eq_none_iff.1 hexact hwhole
    | some m =>
      have hdisplay : (float x).display = Text.ofInt m.toInt := by
        simp only [display, ofBinary64, hexact]
        rfl
      have hinteger : Text.int64? (floatText x) = some m := by
        rw [show floatText x = (float x).text from rfl, ← h, hdisplay, Text.int64?_ofInt]
      rw [int64?_floatText] at hinteger
      exact absurd hinteger.symm (Option.some_ne_none m)

/-- A canonical floating-point number stays one if it is read from a text. -/
lemma ofBinary64_eq_float {x : Binary64} (h : (float x).IsCanonical) :
    ofBinary64 x = .float x := by
  simp only [ofBinary64, Binary64.exactInt?_eq_none_iff.2 h]

/-! ## Equality as values -/

/-- A canonical floating-point number is not zero. -/
lemma isZero_eq_false_of_isCanonical {x : Binary64} (h : (float x).IsCanonical) :
    x.isZero = false := by
  rw [← Bool.not_eq_true]
  intro hzero
  have hrank : x.rank = 0 := by simpa [Binary64.isZero] using hzero
  apply h
  simp [Binary64.isWhole, Binary64.numerator, Binary64.significand, hrank]

/-- A canonical number has the value of no other number of its kind. The sign of zero, in which two
floating-point numbers of one value may differ, does not arise: zero is edited as an integer. -/
theorem same_iff {m n : Number} (hm : m.IsCanonical) : m.same n = true ↔ m = n := by
  cases m with
  | int i => cases n <;> simp [same]
  | float x =>
    have hzero := isZero_eq_false_of_isCanonical hm
    cases n <;> simp [same, Binary64.sameValue, hzero]

end Number

end Json

end RuleEditor
