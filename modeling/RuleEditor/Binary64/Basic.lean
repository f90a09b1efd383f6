import RuleEditor.Decimal.Basic

/-!
# Finite numbers of 64 bits

The finite binary floating-point numbers of 64 bits, exactly: each is a sign and the rank of its
magnitude among all magnitudes in ascending order. The rank of a number is its bit pattern without
the sign bit, so zero has rank 0, the least positive number rank 1, and a number is even (in the
sense of round-half-even) exactly if its rank is. Infinities and NaN are not numbers here.

## Main definitions

* `Binary64` — sign and rank.
* `Binary64.significand`, `Binary64.scale` — the magnitude is `significand * 2 ^ scale`.
* `Binary64.numerator`, `Binary64.denominator` — the magnitude as a fraction.
* `Binary64.truncate` — the integer part.
* `Binary64.exactInt?` — the value of a whole number up to `2 ^ 53`.
-/

namespace RuleEditor

-- powers are those of the core library, also where those of monoids are at hand
attribute [local instance (high)] instPowNat

/-- A finite binary floating-point number of 64 bits. Giving the rank instead of a significand and
an exponent leaves each magnitude one representation, so that equality of numbers is equality of
sign and rank. -/
structure Binary64 where
  /-- The sign bit; zero has one too. -/
  negative : Bool
  /-- The place of the magnitude in ascending order, from zero at 0. -/
  rank : Nat
  /-- The rank above the largest finite magnitude would be infinity. -/
  rank_lt : rank < 2047 * 2 ^ (52 : Nat)
deriving DecidableEq, Repr

namespace Binary64

/-- Zero with a sign. -/
def zero (negative : Bool) : Binary64 := ⟨negative, 0, by decide⟩

/-- Whether a number is zero, of either sign. -/
def isZero (x : Binary64) : Bool := x.rank == 0

/-- The integer that the magnitude is a power of two times of; below `2 ^ 53`. From the rank `2 ^
52` on, its highest bit is not stored. -/
def significand (x : Binary64) : Nat :=
  if x.rank < 2 ^ (52 : Nat) then x.rank else 2 ^ (52 : Nat) + x.rank % 2 ^ (52 : Nat)

/-- The power of two that goes with the significand. -/
def scale (x : Binary64) : Int :=
  if x.rank < 2 ^ (52 : Nat) then -1074 else (x.rank / 2 ^ (52 : Nat) : Nat) - 1075

/-- The magnitude is `numerator / denominator`; the fraction need not be in lowest terms. All
computations with numbers go through this exact fraction. -/
def numerator (x : Binary64) : Nat := x.significand * 2 ^ x.scale.toNat

/-- The magnitude is `numerator / denominator`. -/
def denominator (x : Binary64) : Nat := 2 ^ (-x.scale).toNat

/-- The number without its fraction, rounded toward zero. -/
def truncate (x : Binary64) : Int :=
  let n := x.numerator / x.denominator
  if x.negative then -(n : Int) else n

/-- Whether a number has no fraction. -/
def isWhole (x : Binary64) : Bool := x.numerator % x.denominator == 0

/-- The value of a whole number whose magnitude is at most `2 ^ 53`, the range in which whole
numbers and integers correspond one to one. The sign of zero is lost. -/
def exactInt? (x : Binary64) : Option Int64 :=
  if x.isWhole ∧ x.numerator / x.denominator ≤ 2 ^ (53 : Nat) then
    some (Int64.ofIntClamp x.truncate)
  else none

/-- Two numbers of one value: the sign of zero does not count. -/
def sameValue (x y : Binary64) : Bool := x == y || (x.isZero && y.isZero)

end Binary64

end RuleEditor
