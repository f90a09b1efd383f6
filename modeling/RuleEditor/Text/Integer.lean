/-!
# Integers in text

Whole numbers are written in base ten with a minus sign where they are negative. Reading is a
little wider than writing: a plus sign and leading zeros are accepted, white space is not.

## Main definitions

* `Text.ofInt` — the text of an integer.
* `Text.digits?` — the value of a run of digits.
* `Text.int64?` — the 64-bit integer that a text spells out.
-/

namespace RuleEditor.Text

-- powers are those of the core library, also where those of monoids are at hand
attribute [local instance (high)] instPowNat

/-- The digits of a natural number in base ten. -/
def ofNat (n : Nat) : List Char := Nat.toDigits 10 n

/-- The text of an integer. -/
def ofInt (n : Int) : List Char :=
  if n < 0 then '-' :: ofNat n.natAbs else ofNat n.natAbs

/-- The value of a non-empty run of ASCII digits. -/
def digits? (cs : List Char) : Option Nat :=
  if cs ≠ [] ∧ cs.all Char.isDigit then some (Nat.ofDigitChars 10 cs 0) else none

/-- Splits a leading sign off a text: whether it was a minus sign, and what follows. -/
def sign : List Char → Bool × List Char
  | '-' :: rest => (true, rest)
  | '+' :: rest => (false, rest)
  | rest => (false, rest)

/-- An integer with an optional sign. -/
def int? (cs : List Char) : Option Int :=
  (digits? (sign cs).2).map fun n => if (sign cs).1 then -(n : Int) else n

/-- The 64-bit integer that a text spells out; none if the text is no integer or the value does not
fit. A value that does not fit is not brought into range here. -/
def int64? (cs : List Char) : Option Int64 :=
  (int? cs).bind fun n =>
    if -2 ^ (63 : Nat) ≤ n ∧ n < 2 ^ (63 : Nat) then some (Int64.ofInt n) else none

/-- The digits of a natural number have that number as their value. -/
theorem digits?_ofNat (n : Nat) : digits? (ofNat n) = some n := by
  have hne : Nat.toDigits 10 n ≠ [] := Nat.toDigits_ne_nil
  have hall : (Nat.toDigits 10 n).all Char.isDigit = true :=
    List.all_eq_true.2 fun c hc => Nat.isDigit_of_mem_toDigits (by decide) (by decide) hc
  simp only [digits?, ofNat, ne_eq, hne, not_false_eq_true, hall, and_self, ↓reduceIte,
    Nat.ofDigitChars_toDigits (b := 10) (by decide) (by decide)]

end RuleEditor.Text
