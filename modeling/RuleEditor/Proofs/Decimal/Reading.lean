import Mathlib.Algebra.Order.Field.Power
import Mathlib.Algebra.Order.Field.Rat
import Mathlib.Tactic.FieldSimp
import Mathlib.Tactic.Ring
import RuleEditor.Decimal.Basic
import RuleEditor.Proofs.Text.Integer

/-!
# Reading decimals back

The text of a decimal reads as a decimal of the same sign and the same magnitude, whatever the
layout. The coefficient and the exponent need not come back: zeros at the end of the coefficient are
not written, and zeros that fill the gap up to the decimal point are read as part of it.

## Main definitions

* `Decimal.magnitude` — the value of a decimal without its sign.

## Main results

* `Decimal.ofChars?_render` — the text of a decimal reads as a decimal of that sign and magnitude.
* `Decimal.magnitude_bounds` — the decimal point of a decimal says how large it is.
* `Decimal.int?_render`, `Decimal.isSpace_of_mem_render` — the text of a decimal is no integer and
  has no white space.
-/

set_option relaxedAutoImplicit false
set_option autoImplicit false

namespace RuleEditor.Decimal

/-- The value of a decimal without its sign, as a rational. Two decimals of one sign and one
magnitude are read as the same number. -/
def magnitude (d : Decimal) : ℚ := d.coefficient * (10 : ℚ) ^ d.exponent

/-! ## Digits -/

/-- The digits of a coefficient are its significant digits and zeros behind them. -/
lemma exists_ofNat_coefficient_eq (d : Decimal) :
    ∃ z, Text.ofNat d.coefficient = d.significantDigits ++ List.replicate z '0' := by
  have hsplit : (Text.ofNat d.coefficient).reverse.takeWhile (· == '0') ++
      (Text.ofNat d.coefficient).reverse.dropWhile (· == '0') =
      (Text.ofNat d.coefficient).reverse := List.takeWhile_append_dropWhile
  have hzeros : ((Text.ofNat d.coefficient).reverse.takeWhile (· == '0')).reverse =
      List.replicate ((Text.ofNat d.coefficient).reverse.takeWhile (· == '0')).length '0' := by
    rw [List.eq_replicate_iff, List.length_reverse]
    refine ⟨rfl, fun c hc => ?_⟩
    simpa using List.mem_takeWhile_imp (List.mem_reverse.1 hc)
  refine ⟨((Text.ofNat d.coefficient).reverse.takeWhile (· == '0')).length, ?_⟩
  rw [← hzeros, significantDigits, ← List.reverse_append, hsplit, List.reverse_reverse]

/-- The significant digits are digits. -/
lemma isDigit_of_mem_significantDigits (d : Decimal) :
    ∀ c ∈ d.significantDigits, c.isDigit = true := by
  intro c hc
  obtain ⟨z, hz⟩ := d.exists_ofNat_coefficient_eq
  exact Text.isDigit_of_mem_ofNat (n := d.coefficient) (by rw [hz]; exact List.mem_append_left _ hc)

/-- The magnitude in terms of the significant digits and the decimal point. These two are what a
text shows, so that the lemmas on texts aim at this form. -/
lemma magnitude_eq (d : Decimal) :
    d.magnitude = (Nat.ofDigitChars 10 d.significantDigits 0 : ℚ) *
      (10 : ℚ) ^ (d.point - d.significantDigits.length) := by
  obtain ⟨z, hz⟩ := d.exists_ofNat_coefficient_eq
  have hcoefficient : d.coefficient = 10 ^ z * Nat.ofDigitChars 10 d.significantDigits 0 := by
    rw [← Text.ofDigitChars_ofNat d.coefficient, hz, Nat.ofDigitChars_append,
      Nat.ofDigitChars_replicate_zero]
  have hexponent : d.point - d.significantDigits.length = (z : ℤ) + d.exponent := by
    rw [point, hz, List.length_append, List.length_replicate]
    push_cast
    ring
  rw [hexponent, zpow_add₀ (by norm_num), zpow_natCast, magnitude, hcoefficient]
  push_cast
  ring

/-- A decimal other than zero has significant digits. -/
lemma significantDigits_ne_nil {d : Decimal} (h : d.coefficient ≠ 0) :
    d.significantDigits ≠ [] := by
  intro hnil
  obtain ⟨z, hz⟩ := d.exists_ofNat_coefficient_eq
  apply h
  rw [← Text.ofDigitChars_ofNat d.coefficient, hz, hnil, List.nil_append,
    Nat.ofDigitChars_replicate_zero, Nat.mul_zero]

/-- The value of a decimal other than zero is at least the power of ten in front of its decimal
point and less than the one behind. -/
theorem magnitude_bounds {d : Decimal} (h : d.coefficient ≠ 0) :
    (10 : ℚ) ^ (d.point - 1) ≤ d.magnitude ∧ d.magnitude < (10 : ℚ) ^ d.point := by
  obtain ⟨hlower, hupper⟩ := Text.length_ofNat_bounds h
  have hpos : (0 : ℚ) < (10 : ℚ) ^ d.exponent := zpow_pos (by norm_num) _
  have hlength : 0 < (Text.ofNat d.coefficient).length := Nat.length_toDigits_pos
  constructor
  · have hexponent : d.point - 1 =
        (((Text.ofNat d.coefficient).length - 1 : ℕ) : ℤ) + d.exponent := by
      rw [point]
      omega
    rw [hexponent, zpow_add₀ (by norm_num), zpow_natCast, magnitude]
    exact mul_le_mul_of_nonneg_right (by exact_mod_cast hlower) hpos.le
  · rw [point, zpow_add₀ (by norm_num), zpow_natCast, magnitude]
    exact mul_lt_mul_of_pos_right (by exact_mod_cast hupper) hpos

/-! ## Reading the parts of a literal -/

/-- The leading digits of a text end where another character begins. -/
lemma spanDigits_append {w rest : List Char} (hw : ∀ c ∈ w, c.isDigit = true)
    (hrest : ∀ c ∈ rest.head?, c.isDigit = false) : spanDigits (w ++ rest) = (w, rest) := by
  have hstop : rest.takeWhile Char.isDigit = [] ∧ rest.dropWhile Char.isDigit = rest := by
    cases rest with
    | nil => exact ⟨rfl, rfl⟩
    | cons c rest => simp [hrest c (by simp)]
  rw [spanDigits, List.takeWhile_append_of_pos hw, List.dropWhile_append_of_pos hw, hstop.1,
    hstop.2, List.append_nil]

/-- A literal is read part by part: the sign, the digits before the point, those behind it, and the
exponent. -/
lemma ofChars?_of_parts {negative : Bool} {cs w rest f mark : List Char} {e : Int}
    (hsign : Text.sign cs = (negative, w ++ rest)) (hw : ∀ c ∈ w, c.isDigit = true) (hne : w ≠ [])
    (hrest : ∀ c ∈ rest.head?, c.isDigit = false) (hfraction : fraction rest = (f, mark))
    (hexponent : exponent? mark = some e) :
    ofChars? cs = some ⟨negative, Nat.ofDigitChars 10 (w ++ f) 0, e - f.length⟩ := by
  simp only [ofChars?, hsign, spanDigits_append hw hrest, hfraction, hne, false_and, ↓reduceIte,
    hexponent, Option.map_some]

/-- A point followed by digits up to the exponent or the end is a fraction. -/
lemma fraction_point {f mark : List Char} (hf : ∀ c ∈ f, c.isDigit = true)
    (hmark : ∀ c ∈ mark.head?, c.isDigit = false) : fraction ('.' :: (f ++ mark)) = (f, mark) := by
  rw [fraction, spanDigits_append hf hmark]

/-- A point followed by digits alone is a fraction. -/
lemma fraction_point_end {f : List Char} (hf : ∀ c ∈ f, c.isDigit = true) :
    fraction ('.' :: f) = (f, []) := by
  simpa using fraction_point hf (show ∀ c ∈ ([] : List Char).head?, c.isDigit = false by simp)

/-- The exponent of a number with an exponent, with its letter and its sign. -/
def exponentMark (e : Int) : List Char :=
  if e < 0 then 'e' :: '-' :: Text.ofNat e.natAbs else 'e' :: '+' :: Text.ofNat e.natAbs

/-- The exponent part of a literal reads as the exponent. -/
lemma exponent?_exponentMark (e : Int) : exponent? (exponentMark e) = some e := by
  unfold exponentMark
  split
  · show Text.int? ('-' :: Text.ofNat e.natAbs) = some e
    rw [Text.int?, Text.sign, Text.digits?_ofNat]
    show some (-(e.natAbs : ℤ)) = some e
    rw [Option.some.injEq]
    omega
  · show Text.int? ('+' :: Text.ofNat e.natAbs) = some e
    rw [Text.int?, Text.sign, Text.digits?_ofNat]
    show some (e.natAbs : ℤ) = some e
    rw [Option.some.injEq]
    omega

/-- The exponent part of a literal begins with a letter. -/
lemma head?_exponentMark {e : Int} {c : Char} (hc : c ∈ (exponentMark e).head?) : c = 'e' := by
  unfold exponentMark at hc
  split at hc <;> simpa using hc.symm

/-- The exponent part of a literal is no fraction. -/
lemma fraction_exponentMark (e : Int) : fraction (exponentMark e) = ([], exponentMark e) := by
  unfold exponentMark
  split <;> rfl

/-! ## Reading what was written -/

/-- Positional digits read as the number with its point in the given place.

**Proof sketch.** The point falls in front of the digits, among them or behind them. In the first
case the zeros after the point are leading zeros of the coefficient, and in the last the zeros that
fill the gap and the one behind the point multiply it by a power of ten, which the exponent takes
back. -/
lemma exists_ofChars?_positional {digits cs : List Char} {p : Int} {negative : Bool}
    (hdigits : ∀ c ∈ digits, c.isDigit = true) (hne : digits ≠ [])
    (hsign : Text.sign cs = (negative, positional digits p)) :
    ∃ d, ofChars? cs = some d ∧ d.negative = negative ∧
      d.magnitude = (Nat.ofDigitChars 10 digits 0 : ℚ) * (10 : ℚ) ^ (p - digits.length) := by
  have hpoint : ∀ f : List Char, ∀ c ∈ ('.' :: f).head?, c.isDigit = false := by
    intro f c hc
    obtain rfl : '.' = c := by simpa using hc
    decide
  have hzeros : ∀ n, ∀ c ∈ List.replicate n '0', c.isDigit = true := by
    intro n c hc
    rw [List.eq_of_mem_replicate hc]
    decide
  unfold positional at hsign
  split_ifs at hsign with hfront hamong
  · -- the point stands in front of the digits
    have hf : ∀ c ∈ List.replicate (-p).toNat '0' ++ digits, c.isDigit = true := by
      intro c hc
      rcases List.mem_append.1 hc with hc | hc
      · exact hzeros _ c hc
      · exact hdigits c hc
    refine ⟨_, ofChars?_of_parts (w := ['0']) (e := 0) hsign (hzeros 1) (by simp) (hpoint _)
      (fraction_point_end hf) rfl, rfl, ?_⟩
    have hexponent : (0 : ℤ) - (List.replicate (-p).toNat '0' ++ digits).length =
        p - digits.length := by
      rw [List.length_append, List.length_replicate]
      omega
    simp only [magnitude, hexponent, Nat.ofDigitChars_append, Nat.ofDigitChars_cons,
      Nat.ofDigitChars_nil, Nat.ofDigitChars_replicate_zero]
    simp
  · -- the point stands among the digits
    have hlength : (digits.drop p.toNat).length = digits.length - p.toNat := List.length_drop
    have hf : ∀ c ∈ digits.drop p.toNat, c.isDigit = true :=
      fun c hc => hdigits c (List.mem_of_mem_drop hc)
    refine ⟨_, ofChars?_of_parts (w := digits.take p.toNat) (e := 0) hsign
      (fun c hc => hdigits c (List.mem_of_mem_take hc)) ?_ (hpoint _) (fraction_point_end hf) rfl,
      rfl, ?_⟩
    · intro hnil
      rcases List.take_eq_nil_iff.1 hnil with h | h
      · omega
      · exact hne h
    · have hexponent : (0 : ℤ) - (digits.drop p.toNat).length = p - digits.length := by
        rw [hlength]
        omega
      simp only [magnitude, hexponent, List.take_append_drop]
  · -- the point stands behind the digits
    have hw : ∀ c ∈ digits ++ List.replicate (p.toNat - digits.length) '0', c.isDigit = true := by
      intro c hc
      rcases List.mem_append.1 hc with hc | hc
      · exact hdigits c hc
      · exact hzeros _ c hc
    refine ⟨_, ofChars?_of_parts (w := digits ++ List.replicate (p.toNat - digits.length) '0')
      (e := 0) hsign hw (by simp [hne]) (hpoint _) (fraction_point_end (hzeros 1)) rfl, rfl, ?_⟩
    have hexponent : p - digits.length = ((p.toNat - digits.length : ℕ) : ℤ) := by omega
    have hzero : '0'.toNat - '0'.toNat = 0 := rfl
    simp only [magnitude, hexponent, Nat.ofDigitChars_append, Nat.ofDigitChars_cons,
      Nat.ofDigitChars_nil, Nat.ofDigitChars_replicate_zero, zpow_natCast, hzero]
    simp
    field_simp

/-- A number with an exponent is its digits, with a point behind the first if more follow, and the
exponent part. -/
lemma scientific_cons (c : Char) (rest : List Char) (p : Int) :
    scientific (c :: rest) p =
      c :: ((if rest = [] then [] else '.' :: rest) ++ exponentMark (p - 1)) := by
  cases rest with
  | nil => rfl
  | cons d rest => rfl

/-- Digits with an exponent read as the number with its point in the given place. -/
lemma exists_ofChars?_scientific {digits cs : List Char} {p : Int} {negative : Bool}
    (hdigits : ∀ c ∈ digits, c.isDigit = true) (hne : digits ≠ [])
    (hsign : Text.sign cs = (negative, scientific digits p)) :
    ∃ d, ofChars? cs = some d ∧ d.negative = negative ∧
      d.magnitude = (Nat.ofDigitChars 10 digits 0 : ℚ) * (10 : ℚ) ^ (p - digits.length) := by
  obtain ⟨c, rest, rfl⟩ := List.exists_cons_of_ne_nil hne
  have hmark : ∀ d ∈ (exponentMark (p - 1)).head?, d.isDigit = false := by
    intro d hd
    rw [head?_exponentMark hd]
    decide
  have hrest : ∀ d ∈ rest, d.isDigit = true := fun d hd => hdigits d (List.mem_cons_of_mem _ hd)
  have hfirst : ∀ d ∈ [c], d.isDigit = true := fun d hd => hdigits d (by simp_all)
  have hfraction : fraction ((if rest = [] then [] else '.' :: rest) ++ exponentMark (p - 1)) =
      (rest, exponentMark (p - 1)) := by
    by_cases hnil : rest = []
    · rw [hnil, if_pos rfl, List.nil_append, fraction_exponentMark]
    · rw [if_neg hnil]
      exact fraction_point hrest hmark
  have hhead : ∀ d ∈ ((if rest = [] then [] else '.' :: rest) ++ exponentMark (p - 1)).head?,
      d.isDigit = false := by
    intro d hd
    by_cases hnil : rest = []
    · exact hmark d (by simpa [hnil] using hd)
    · obtain rfl : '.' = d := by simpa [hnil] using hd
      decide
  rw [scientific_cons] at hsign
  refine ⟨_, ofChars?_of_parts (w := [c]) hsign hfirst (by simp) hhead hfraction
    (exponent?_exponentMark _), rfl, ?_⟩
  have hexponent : p - 1 - (rest.length : ℤ) = p - (c :: rest).length := by
    rw [List.length_cons]
    omega
  simp only [magnitude, hexponent, List.singleton_append]

/-- What is written of a decimal besides the sign. -/
def body (layout : Layout) (d : Decimal) : List Char :=
  if d.coefficient = 0 then ['0', '.', '0']
  else if layout.positionalFrom ≤ d.point ∧ d.point ≤ layout.positionalTo then
    positional d.significantDigits d.point
  else scientific d.significantDigits d.point

/-- The text of a decimal is a minus sign, if it is negative, and the body. -/
lemma render_eq (layout : Layout) (d : Decimal) :
    render layout d = if d.negative then '-' :: body layout d else body layout d := rfl

/-- Positional digits begin with a digit. -/
lemma exists_positional_eq_cons {digits : List Char} (p : Int)
    (hdigits : ∀ c ∈ digits, c.isDigit = true) (hne : digits ≠ []) :
    ∃ c rest, positional digits p = c :: rest ∧ c.isDigit = true := by
  obtain ⟨c, rest, rfl⟩ := List.exists_cons_of_ne_nil hne
  unfold positional
  split_ifs with hfront hamong
  · exact ⟨'0', _, rfl, rfl⟩
  · obtain ⟨n, hn⟩ : ∃ n, p.toNat = n + 1 := ⟨p.toNat - 1, by omega⟩
    exact ⟨c, _, by rw [hn, List.take_succ_cons, List.cons_append], hdigits c (by simp)⟩
  · exact ⟨c, _, by rw [List.cons_append, List.cons_append], hdigits c (by simp)⟩

/-- The body of a decimal begins with a digit. -/
lemma exists_body_eq_cons (layout : Layout) (d : Decimal) :
    ∃ c rest, body layout d = c :: rest ∧ c.isDigit = true := by
  have hdigits := d.isDigit_of_mem_significantDigits
  unfold body
  split_ifs with hzero hlayout
  · exact ⟨'0', _, rfl, rfl⟩
  · exact exists_positional_eq_cons d.point hdigits (significantDigits_ne_nil hzero)
  · obtain ⟨c, rest, hcons⟩ := List.exists_cons_of_ne_nil (significantDigits_ne_nil hzero)
    exact ⟨c, _, by rw [hcons, scientific_cons], hdigits c (by simp [hcons])⟩

/-- Reading splits exactly the sign off the text of a decimal. -/
lemma sign_render (layout : Layout) (d : Decimal) :
    Text.sign (render layout d) = (d.negative, body layout d) := by
  obtain ⟨c, rest, hbody, hc⟩ := exists_body_eq_cons layout d
  rw [render_eq]
  cases d.negative with
  | true => rfl
  | false =>
    rw [hbody]
    exact Text.sign_of_isDigit hc

/-- **Reading inverts writing up to the choice of coefficient and exponent.** The text of a decimal
reads as a decimal of the same sign and the same magnitude, positional or with an exponent, for
every layout.

**Proof sketch.** The sign splits off exactly (`sign_render`), and what is left is zero, positional
(`exists_ofChars?_positional`) or with an exponent (`exists_ofChars?_scientific`). -/
theorem ofChars?_render (layout : Layout) (d : Decimal) :
    ∃ d', ofChars? (render layout d) = some d' ∧ d'.negative = d.negative ∧
      d'.magnitude = d.magnitude := by
  have hsign := sign_render layout d
  have hdigits := d.isDigit_of_mem_significantDigits
  unfold body at hsign
  split_ifs at hsign with hzero hlayout
  · refine ⟨⟨d.negative, 0, -1⟩, ?_, rfl, ?_⟩
    · simp only [ofChars?, hsign]
      rfl
    · simp [magnitude, hzero]
  · rw [magnitude_eq d]
    exact exists_ofChars?_positional hdigits (significantDigits_ne_nil hzero) hsign
  · rw [magnitude_eq d]
    exact exists_ofChars?_scientific hdigits (significantDigits_ne_nil hzero) hsign

/-! ## The characters of the text -/

/-- The characters that stand in the text of a decimal besides digits. -/
def marks : List Char := ['.', 'e', '-', '+']

/-- A character of an exponent part is a digit or a mark. -/
lemma mem_exponentMark {e : Int} {c : Char} (hc : c ∈ exponentMark e) :
    c.isDigit = true ∨ c ∈ marks := by
  have hmark : c ∈ ['e', '-', '+'] ∨ c ∈ Text.ofNat e.natAbs := by
    unfold exponentMark at hc
    split at hc <;> simp only [List.mem_cons] at hc ⊢ <;> tauto
  rcases hmark with hmark | hdigit
  · exact .inr (List.mem_cons_of_mem _ hmark)
  · exact .inl (Text.isDigit_of_mem_ofNat hdigit)

/-- A character of positional digits is a digit or the point. -/
lemma mem_positional {digits : List Char} {p : Int} {c : Char}
    (hdigits : ∀ c ∈ digits, c.isDigit = true) (hc : c ∈ positional digits p) :
    c.isDigit = true ∨ c ∈ marks := by
  have hmem : c = '0' ∨ c = '.' ∨ c ∈ digits := by
    unfold positional at hc
    split_ifs at hc with hfront hamong
    · simp only [List.mem_cons, List.mem_append, List.mem_replicate] at hc
      tauto
    · rcases List.mem_append.1 hc with hc | hc
      · exact .inr (.inr (List.mem_of_mem_take hc))
      · rcases List.mem_cons.1 hc with hc | hc
        · exact .inr (.inl hc)
        · exact .inr (.inr (List.mem_of_mem_drop hc))
    · simp only [List.mem_cons, List.mem_append, List.mem_replicate, List.not_mem_nil,
        or_false] at hc
      tauto
  rcases hmem with rfl | rfl | hc
  · exact .inl (by decide)
  · exact .inr (by decide)
  · exact .inl (hdigits c hc)

/-- A character of a number with an exponent is a digit or a mark. -/
lemma mem_scientific {digits : List Char} {p : Int} {c : Char}
    (hdigits : ∀ c ∈ digits, c.isDigit = true) (hne : digits ≠ [])
    (hc : c ∈ scientific digits p) : c.isDigit = true ∨ c ∈ marks := by
  obtain ⟨d, rest, rfl⟩ := List.exists_cons_of_ne_nil hne
  rw [scientific_cons] at hc
  rcases List.mem_cons.1 hc with rfl | hc
  · exact .inl (hdigits c (by simp))
  rcases List.mem_append.1 hc with hc | hc
  · split at hc
    · exact absurd hc List.not_mem_nil
    · rcases List.mem_cons.1 hc with rfl | hc
      · exact .inr (by decide)
      · exact .inl (hdigits c (List.mem_cons_of_mem _ hc))
  · exact mem_exponentMark hc

/-- A character of the text of a decimal is a digit or a mark. -/
lemma mem_render {layout : Layout} {d : Decimal} {c : Char} (hc : c ∈ render layout d) :
    c.isDigit = true ∨ c ∈ marks := by
  have hdigits := d.isDigit_of_mem_significantDigits
  have hbody : c ∈ body layout d → c.isDigit = true ∨ c ∈ marks := by
    intro hc
    unfold body at hc
    split_ifs at hc with hzero hlayout
    · rcases List.mem_cons.1 hc with rfl | hc
      · exact .inl (by decide)
      · rcases List.mem_cons.1 hc with rfl | hc
        · exact .inr (by decide)
        · rw [List.mem_singleton.1 hc]
          exact .inl (by decide)
    · exact mem_positional hdigits hc
    · exact mem_scientific hdigits (significantDigits_ne_nil hzero) hc
  rw [render_eq] at hc
  split at hc
  · rcases List.mem_cons.1 hc with rfl | hc
    · exact .inr (by decide)
    · exact hbody hc
  · exact hbody hc

/-- The text of a decimal is no integer: behind the sign it has a point or an exponent. -/
lemma exists_mark_mem_body (layout : Layout) (d : Decimal) :
    ∃ c ∈ body layout d, c.isDigit = false := by
  unfold body
  split_ifs with hzero hlayout
  · exact ⟨'.', by simp, by decide⟩
  · refine ⟨'.', ?_, by decide⟩
    unfold positional
    split_ifs <;> simp
  · obtain ⟨c, rest, hcons⟩ := List.exists_cons_of_ne_nil (significantDigits_ne_nil hzero)
    refine ⟨'e', ?_, by decide⟩
    rw [hcons, scientific_cons]
    refine List.mem_cons_of_mem _ (List.mem_append_right _ ?_)
    unfold exponentMark
    split <;> simp

/-- The text of a decimal does not read as an integer. So a text is never both an integer and a
decimal that was written, and readers may try integers first. -/
theorem int?_render (layout : Layout) (d : Decimal) : Text.int? (render layout d) = none := by
  obtain ⟨c, hc, hdigit⟩ := exists_mark_mem_body layout d
  have hdigits : Text.digits? (body layout d) = none := by
    rw [Text.digits?, if_neg]
    rintro ⟨-, hall⟩
    rw [List.all_eq_true.1 hall c hc] at hdigit
    exact absurd hdigit (by decide)
  rw [Text.int?, sign_render, hdigits]
  rfl

/-- The text of a decimal has no white space, so that trimming leaves it as it is. -/
theorem isSpace_of_mem_render {layout : Layout} {d : Decimal} {c : Char}
    (hc : c ∈ render layout d) : Text.isSpace c = false := by
  rcases mem_render hc with hdigit | hmark
  · exact Text.isSpace_eq_false_of_isDigit hdigit
  · simp only [marks, List.mem_cons, List.not_mem_nil, or_false] at hmark
    rcases hmark with rfl | rfl | rfl | rfl <;> rfl

end RuleEditor.Decimal
