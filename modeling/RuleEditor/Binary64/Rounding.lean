import RuleEditor.Binary64.Basic

/-!
# Rounding to 64 bits

Every non-negative fraction has a nearest 64-bit magnitude, or two equally near ones, of which the
even one is taken. A decimal literal is read by rounding its exact value in this way; a literal that
would round beyond the largest finite number has no value.

## Main definitions

* `Binary64.roundHalfEven` — the quotient of two naturals, rounded.
* `Binary64.nearestRank` — the rank of the magnitude nearest to a fraction.
* `Binary64.ofDecimal?` — the number nearest to a decimal.
* `Binary64.ofText?` — the number that a literal spells out.
-/

namespace RuleEditor.Binary64

-- powers are those of the core library, also where those of monoids are at hand
attribute [local instance (high)] instPowNat

/-- The natural number nearest to `num / den`, an exact half going to the even neighbour. The
denominator is positive wherever this is used. -/
def roundHalfEven (num den : Nat) : Nat :=
  let q := num / den
  let r := num % den
  if 2 * r > den ∨ (2 * r = den ∧ q % 2 = 1) then q + 1 else q

/-- The greatest `t` with `2 ^ t ≤ num / den`, for positive arguments. The difference of the two
logarithms is that number or one more. -/
def floorLog2 (num den : Nat) : Int :=
  let t : Int := (num.log2 : Int) - den.log2
  if den * 2 ^ t.toNat ≤ num * 2 ^ (-t).toNat then t else t - 1

/-- The rank of the magnitude nearest to `num / den`: the fraction is divided by the power of two
that leaves a 53-bit integer part, or by the least power of two there is, and the quotient is
rounded. A quotient that is rounded up to 54 bits falls on the next power of two, whose rank the
same formula gives. -/
def nearestRank (num den : Nat) : Nat :=
  if num = 0 then 0
  else
    let s : Int := max (-1074) (floorLog2 num den - 52)
    (s + 1074).toNat * 2 ^ (52 : Nat) + roundHalfEven (num * 2 ^ (-s).toNat) (den * 2 ^ s.toNat)

/-- The number nearest to a fraction with a sign; none if that is beyond the largest one. A fraction
that rounds to zero keeps its sign. -/
def ofRatio? (negative : Bool) (num den : Nat) : Option Binary64 :=
  if h : nearestRank num den < 2047 * 2 ^ (52 : Nat) then
    some ⟨negative, nearestRank num den, h⟩
  else none

/-- The number nearest to a decimal. Powers of ten far outside the range are settled without being
computed: from `10 ^ 310` on there is no number, and below `10 ^ (-400)` all is zero. This is how
texts are read; number literals in documents are read by `Json.Literal.value?`, which may be off in
the last digit. -/
def ofDecimal? (d : Decimal) : Option Binary64 :=
  if d.coefficient = 0 then some (zero d.negative)
  else if 310 < d.point then none
  else if d.point < -400 then some (zero d.negative)
  else ofRatio? d.negative (d.coefficient * 10 ^ d.exponent.toNat) (10 ^ (-d.exponent).toNat)

/-- The number that a literal spells out. Literals of no number, such as `inf` and `NaN`, and
literals beyond the largest number have none. -/
def ofChars? (cs : List Char) : Option Binary64 := (Decimal.ofChars? cs).bind ofDecimal?

/-- The number that a text spells out; see `ofChars?`. -/
def ofText? (s : String) : Option Binary64 := ofChars? s.toList

end RuleEditor.Binary64
