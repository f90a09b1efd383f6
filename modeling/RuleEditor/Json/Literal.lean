import RuleEditor.Binary64.Scaling
import RuleEditor.Json.Number

/-!
# Number literals

The value of a number literal in a document. Its digits are taken up from the left as long as the
natural number that they spell fits 64 bits. An integer literal of which all digits are taken up is
that integer. Of every other literal the digits that were taken up are rounded to a floating-point
number, which is then scaled by a power of ten. So the value may differ in its last digit from the
number nearest to what the literal says; texts that are read as numbers elsewhere, such as those of
a text box, are read as the nearest number (`Binary64.ofChars?`).

## Main definitions

* `Json.Literal` — the parts of a literal.
* `Json.Literal.takeDigits` — takes up digits as long as they fit.
* `Json.Literal.value?` — the value of a literal.
-/

namespace RuleEditor.Json

-- powers are those of the core library, also where those of monoids are at hand
attribute [local instance (high)] instPowNat

/-- A number literal, taken apart. The grammar has been checked: there are digits before the point
and, if there is one, behind it. -/
structure Literal where
  /-- Whether there is a minus sign. -/
  negative : Bool
  /-- The digits before the point. -/
  whole : List Char
  /-- The digits behind the point, if there is one. -/
  fraction : Option (List Char)
  /-- The exponent, if there is one. -/
  exponent : Option Int
deriving DecidableEq, Repr

namespace Literal

/-- Takes up digits behind the natural number `n`, as long as the number that they make of it fits
64 bits. The digits that do not fit come with it. -/
def takeDigits (n : Nat) : List Char → Nat × List Char
  | [] => (n, [])
  | c :: rest =>
    let next := n * 10 + (c.toNat - '0'.toNat)
    if next < 2 ^ (64 : Nat) then takeDigits next rest else (n, c :: rest)

/-- The digits of a literal that are taken up, as a natural number. Digits before the point that do
not fit are left out, and those behind the point come next, as far as they fit; once one of these
does not fit, all that follow are left out. -/
def significand (l : Literal) : Nat :=
  (takeDigits (takeDigits 0 l.whole).1 (l.fraction.getD [])).1

/-- The power of ten that goes with the significand: each digit left out before the point counts
for one, and each digit taken up behind the point counts against one. -/
def scale (l : Literal) : Int :=
  let whole := takeDigits 0 l.whole
  let fraction := takeDigits whole.1 (l.fraction.getD [])
  whole.2.length - ((l.fraction.getD []).length - fraction.2.length : Nat) + l.exponent.getD 0

/-- Whether a literal is that of an integer which fits 64 bits without its sign. -/
def isInteger (l : Literal) : Bool :=
  l.fraction.isNone && l.exponent.isNone && (takeDigits 0 l.whole).2.isEmpty

/-- The floating-point number that the parts of a literal make up: the significand, rounded, and
then scaled. There is none if the literal is out of range. -/
def scaled? (l : Literal) : Option Binary64 :=
  (Binary64.ofRatio? l.negative l.significand 1).bind fun x => x.scaleByTen? l.scale

/-- The integer that an integer literal stands for. Zero with a minus sign is none, and neither are
negative integers below those of 64 bits. -/
def integer? (l : Literal) : Option Integer :=
  if l.negative then
    if l.significand = 0 then none else Integer.ofInt? (-(l.significand : Int))
  else Integer.ofInt? l.significand

/-- The value of a literal: an integer where it is one, and a floating-point number elsewhere. -/
def value? (l : Literal) : Option Number :=
  match if l.isInteger then l.integer? else none with
  | some n => some (.int n)
  | none => l.scaled?.map .float

end Literal

end RuleEditor.Json
