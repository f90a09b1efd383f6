import RuleEditor.Binary64.Rounding

/-!
# Shortest decimals

A number is written with the fewest digits that read back as that number. Of two such decimals the
nearer one is taken, and of two equally near ones the even one.

The points of the grid of all multiples of a power of ten that come into question are the two on
either side of the number. The grids are tried from coarse to fine; seventeen digits are always
enough, and behind them stands the exact value of the number, which is a decimal too.

## Main definitions

* `Binary64.exactDecimal` — the number itself, digit by digit.
* `Binary64.neighbours` — the two decimals of a grid on either side of a number, the nearer first.
* `Binary64.shortest` — the shortest decimal.
-/

namespace RuleEditor.Binary64

-- powers are those of the core library, also where those of monoids are at hand
attribute [local instance (high)] instPowNat

/-- The exact value as a decimal: a negative power of two is a power of five over a power of ten. -/
def exactDecimal (x : Binary64) : Decimal :=
  if 0 ≤ x.scale then ⟨x.negative, x.significand * 2 ^ x.scale.toNat, 0⟩
  else ⟨x.negative, x.significand * 5 ^ (-x.scale).toNat, x.scale⟩

/-- The least `k` with `num / den < 10 ^ k`, for positive arguments. -/
def decimalPoint (num den : Nat) : Int :=
  if den ≤ num then (Text.ofNat (num / den)).length
  else 1 - ((Text.ofNat ((den - 1) / num)).length : Int)

/-- The two multiples of `10 ^ e` on either side of a number, the nearer one first and of two
equally near ones the even one first. If any multiple on this grid reads as the number, one of these
does. -/
def neighbours (x : Binary64) (e : Int) : List Decimal :=
  let num := x.numerator * 10 ^ (-e).toNat
  let den := x.denominator * 10 ^ e.toNat
  let lower : Decimal := ⟨x.negative, num / den, e⟩
  let upper : Decimal := ⟨x.negative, num / den + 1, e⟩
  if roundHalfEven num den = num / den then [lower, upper] else [upper, lower]

/-- The shortest decimal that reads back as the number. The search checks each candidate by reading
it; should none of seventeen digits do, the exact decimal does. -/
def shortest (x : Binary64) : Decimal :=
  if x.isZero then ⟨x.negative, 0, 0⟩
  else
    let k := decimalPoint x.numerator x.denominator
    ((List.range 17).findSome? fun (n : Nat) =>
        (x.neighbours (k - 1 - n)).find? fun d => ofDecimal? d == some x).getD x.exactDecimal

end RuleEditor.Binary64
