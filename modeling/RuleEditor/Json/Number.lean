import RuleEditor.Binary64.Shortest

/-!
# Numbers of JSON

A number is an integer of 64 bits, signed or unsigned, or a floating-point number. The two are kept
apart: `1` and `1.0` are different numbers. An integer literal outside the 64-bit range and the
literal `-0` are floating-point numbers.

## Main definitions

* `Json.Integer`, `Json.Number` — the numbers.
* `Json.Number.ofBinary64` — a number without fraction becomes an integer where that loses nothing.
* `Json.Number.text` — the text of a number in a document.
* `Json.Number.display` — the text of a number in a text box.
-/

namespace RuleEditor.Json

-- powers are those of the core library, also where those of monoids are at hand
attribute [local instance (high)] instPowNat

/-- An integer that fits 64 bits, signed or unsigned. The bounds are part of the type, so that an
integer literal beyond them cannot become one. -/
structure Integer where
  /-- The value. -/
  val : Int
  /-- Signed integers go down to `-2 ^ 63`. -/
  lower : -2 ^ (63 : Nat) ≤ val
  /-- Unsigned integers go up to `2 ^ 64 - 1`. -/
  upper : val < 2 ^ (64 : Nat)
deriving DecidableEq, Repr

namespace Integer

/-- A signed integer of 64 bits. -/
def ofInt64 (n : Int64) : Integer :=
  ⟨n.toInt, n.le_toInt, by have := n.toInt_lt; omega⟩

/-- An integer that is in range. -/
def ofInt? (n : Int) : Option Integer :=
  if h : -2 ^ (63 : Nat) ≤ n ∧ n < 2 ^ (64 : Nat) then some ⟨n, h.1, h.2⟩ else none

/-- The value as a signed integer of 64 bits, if it is one. -/
def toInt64? (n : Integer) : Option Int64 :=
  if n.val < 2 ^ (63 : Nat) then some (Int64.ofInt n.val) else none

end Integer

/-- A number of JSON. The kind of a number is part of it: `1` and `1.0` are written differently and
are not equal. -/
inductive Number where
  /-- An integer. -/
  | int (n : Integer)
  /-- A number with a fraction, an exponent or a value out of the range of integers. -/
  | float (x : Binary64)
deriving DecidableEq, Repr

namespace Number

/-- A signed integer of 64 bits. -/
def ofInt64 (n : Int64) : Number := .int (.ofInt64 n)

/-- A floating-point number, as an integer if it has no fraction and is at most `2 ^ 53` in
magnitude. It is applied to what users type, so that `3.0` in a text box is stored as `3`. -/
def ofBinary64 (x : Binary64) : Number :=
  match x.exactInt? with
  | some n => .ofInt64 n
  | none => .float x

/-- Floating-point numbers are positional from `0.00001` up to sixteen digits before the point. -/
def floatLayout : Decimal.Layout := ⟨-4, 16⟩

/-- The text of a floating-point number; there is always a fraction or an exponent. -/
def floatText (x : Binary64) : List Char := x.shortest.render floatLayout

/-- The text of a number in a document. It shows which kind the number is of: the text of an integer
is one of digits alone, and that of a floating-point number always has a point or an exponent. -/
def text : Number → List Char
  | .int n => Text.ofInt n.val
  | .float x => floatText x

/-- The text of a number as it is edited: a floating-point number without fraction looks like the
integer that it equals, if that is at most `2 ^ 53` in magnitude. -/
def display : Number → List Char
  | .int n => Text.ofInt n.val
  | .float x => (ofBinary64 x).text

/-- Whether a number is other than zero. -/
def isNonzero : Number → Bool
  | .int n => n.val != 0
  | .float x => !x.isZero

/-- The integer part, brought into the range of signed 64-bit integers. -/
def toInt64Clamp : Number → Int64
  | .int n => Int64.ofIntClamp n.val
  | .float x => Int64.ofIntClamp x.truncate

/-- Two numbers of one value and one kind; zeros of either sign are the same. An integer is never
the same as a floating-point number. -/
def same : Number → Number → Bool
  | .int m, .int n => m == n
  | .float x, .float y => x.sameValue y
  | _, _ => false

end Number

end RuleEditor.Json
