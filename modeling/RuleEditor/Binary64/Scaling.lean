import RuleEditor.Binary64.Rounding

/-!
# Scaling by powers of ten

A product or a quotient of numbers is the number nearest to the exact one. A number is scaled by a
power of ten with one such operation, on the number nearest to the power. That is fast, but the
power has been rounded before: the result may differ in its last digit from the number nearest to
the exact one, and near the end of the range it may be a number where that is none, or none where
that is a number. Powers that no number is near to are divided by in steps, with one more rounding
for each.

## Main definitions

* `Binary64.mul?`, `Binary64.div?` — products and quotients.
* `Binary64.scaleByTen?` — a number times a power of ten, as it is computed in these steps.
-/

namespace RuleEditor.Binary64

/-- The product of two numbers; none if it is beyond the largest number. -/
def mul? (x y : Binary64) : Option Binary64 :=
  ofRatio? (x.negative != y.negative) (x.numerator * y.numerator) (x.denominator * y.denominator)

/-- The quotient of a number and a number other than zero; none if it is beyond the largest
number. -/
def div? (x y : Binary64) : Option Binary64 :=
  ofRatio? (x.negative != y.negative) (x.numerator * y.denominator) (x.denominator * y.numerator)

/-- A power of ten, rounded; none from `10 ^ 309` on. -/
def tenTo? (k : Nat) : Option Binary64 := ofDecimal? ⟨false, 1, k⟩

/-- The number `x * 10 ^ e` as it is computed with rounded powers of ten. A power beyond the range
leaves zero as it is and takes every other number out of range, if it is a multiplier; if it is a
divisor, it is taken apart into divisors that are in range, until it is in range itself or nothing
of the number is left. -/
def scaleByTen? (x : Binary64) (e : Int) : Option Binary64 :=
  if e.natAbs ≤ 308 then do
    let power ← tenTo? e.natAbs
    if 0 ≤ e then x.mul? power else x.div? power
  else if x.isZero then some x
  else if 0 ≤ e then none
  else do
    let power ← tenTo? 308
    let rest ← x.div? power
    rest.scaleByTen? (e + 308)
termination_by e.natAbs

end RuleEditor.Binary64
