import RuleEditor.Text.Integer

/-!
# Decimals

A decimal is a sign, a coefficient and a power of ten. It is what number literals spell out before
they are rounded to a machine number, and what a machine number is turned into before it is written.

## Main definitions

* `Decimal` — sign, coefficient and exponent; two decimals of one value may differ.
* `Decimal.point` — where the decimal point falls among the digits of the coefficient.
* `Decimal.ofChars?` — reads a literal such as `-12.50e+3`, `5.` or `.5`.
* `Decimal.Layout`, `Decimal.render` — writes a decimal, positional or with an exponent.
-/

namespace RuleEditor

/-- The number `coefficient * 10 ^ exponent`, negated if `negative`. The sign of zero is kept, and
the exponent is any integer: what is out of range of machine numbers is a decimal all the same. -/
structure Decimal where
  /-- Whether there is a minus sign. -/
  negative : Bool
  /-- The digits, as one natural number. -/
  coefficient : Nat
  /-- The power of ten. -/
  exponent : Int
deriving DecidableEq, Repr

namespace Decimal

/-- The digits of the coefficient without the zeros at its end; empty for zero. Decimals of one
value have the same significant digits. -/
def significantDigits (d : Decimal) : List Char :=
  ((Text.ofNat d.coefficient).reverse.dropWhile (· == '0')).reverse

/-- The number of places that the decimal point stands to the right of the first digit's left
edge: the value of a decimal with a coefficient other than zero is at least `10 ^ (point - 1)` and
less than `10 ^ point`. -/
def point (d : Decimal) : Int := (Text.ofNat d.coefficient).length + d.exponent

/-! ## Reading -/

/-- Splits off the leading digits. -/
def spanDigits (cs : List Char) : List Char × List Char :=
  (cs.takeWhile Char.isDigit, cs.dropWhile Char.isDigit)

/-- The digits behind a decimal point, if the text starts with one, and the rest. -/
def fraction : List Char → List Char × List Char
  | '.' :: rest => spanDigits rest
  | rest => ([], rest)

/-- An exponent part that is all there is of the text: the letter, an optional sign, at least one
digit. The empty text is the exponent zero. -/
def exponent? : List Char → Option Int
  | [] => some 0
  | c :: rest => if c = 'e' ∨ c = 'E' then Text.int? rest else none

/-- Reads a literal: an optional sign, digits with at most one point among or beside them, and an
optional exponent. At least one digit must stand before the exponent, and nothing may stand before
or behind the literal. -/
def ofChars? (cs : List Char) : Option Decimal :=
  let signed := Text.sign cs
  let whole := spanDigits signed.2
  let part := fraction whole.2
  if whole.1 = [] ∧ part.1 = [] then none
  else (exponent? part.2).map fun e =>
    { negative := signed.1
      coefficient := Nat.ofDigitChars 10 (whole.1 ++ part.1) 0
      exponent := e - part.1.length }

/-! ## Writing -/

/-- How decimals are laid out: positional where the point lies between the two bounds, and with an
exponent elsewhere. Number formats differ in these bounds alone, as far as they are used here. -/
structure Layout where
  /-- The least `point` of a decimal that is written positional. -/
  positionalFrom : Int
  /-- The greatest `point` of a decimal that is written positional. -/
  positionalTo : Int

/-- Digits with a point after the first `p` of them; zeros fill the gap where the point lies
outside, and there is always a digit on either side of it. -/
def positional (digits : List Char) (p : Int) : List Char :=
  if p ≤ 0 then '0' :: '.' :: (List.replicate (-p).toNat '0' ++ digits)
  else if p < digits.length then digits.take p.toNat ++ '.' :: digits.drop p.toNat
  else digits ++ List.replicate (p.toNat - digits.length) '0' ++ ['.', '0']

/-- Digits with a point after the first of them, if more follow, and the exponent with its sign. -/
def scientific (digits : List Char) (p : Int) : List Char :=
  let e := p - 1
  let mark := if e < 0 then 'e' :: '-' :: Text.ofNat e.natAbs else 'e' :: '+' :: Text.ofNat e.natAbs
  match digits with
  | [] => '0' :: mark
  | [d] => d :: mark
  | d :: rest => d :: '.' :: (rest ++ mark)

/-- The text of a decimal, with the sign in front where it is negative. Zero is positional under
every layout. -/
def render (layout : Layout) (d : Decimal) : List Char :=
  let body :=
    if d.coefficient = 0 then ['0', '.', '0']
    else if layout.positionalFrom ≤ d.point ∧ d.point ≤ layout.positionalTo then
      positional d.significantDigits d.point
    else scientific d.significantDigits d.point
  if d.negative then '-' :: body else body

end Decimal

end RuleEditor
