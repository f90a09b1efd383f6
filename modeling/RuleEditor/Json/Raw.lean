import RuleEditor.Json.Basic
import RuleEditor.Json.Literal

/-!
# The grammar of JSON texts

A text is first taken apart by the grammar alone, into a tree that is not yet a value: members may
repeat a name, a number may be out of range, and a string may hold half of a surrogate pair. What
becomes of these depends on whether anyone asks for the place in which they stand, which is settled
when the tree is read. A text that stops being JSON somewhere has a tree too, up to that place.

## Main definitions

* `Json.Raw` — the trees.
* `Json.Raw.parse` — the tree of a text, up to the first fault.
* `Json.Raw.parse?` — the tree of a text without fault.
* `Json.Raw.value?` — the value of a tree, if all of it has one: a repeated name has its first place
  and its last value, and values are nested at most `maxDepth` deep.
* `Json.parse?` — the value of a text.
-/

namespace RuleEditor.Json

/-- The tree of a JSON text: what its grammar says, before it is known which parts are asked for. -/
inductive Raw where
  /-- The literal `null`. -/
  | null
  /-- The literals `true` and `false`. -/
  | bool (b : Bool)
  /-- A number literal, with its value if that is in range. -/
  | num (n : Option Number)
  /-- A string literal, with its text if all its escapes are characters. -/
  | str (s : Option String)
  /-- A list. -/
  | arr (items : List Raw)
  /-- An object; names may be repeated. -/
  | obj (members : List (Option String × Raw))
  /-- The place where a text stops being JSON. It is the last item or member of each list and object
  that is open there. -/
  | fault
deriving Inhabited

namespace Raw

/-! ## Strings -/

/-- What a string literal holds: a character, or a code unit given by its number. -/
inductive Piece where
  /-- A character, as it stands or by a short escape. -/
  | char (c : Char)
  /-- A code unit of 16 bits. -/
  | unit (n : Nat)

/-- The value of a hexadecimal digit. -/
def hexDigit? (c : Char) : Option Nat :=
  if '0' ≤ c ∧ c ≤ '9' then some (c.toNat - '0'.toNat)
  else if 'a' ≤ c ∧ c ≤ 'f' then some (c.toNat - 'a'.toNat + 10)
  else if 'A' ≤ c ∧ c ≤ 'F' then some (c.toNat - 'A'.toNat + 10)
  else none

/-- The value of four hexadecimal digits. -/
def hex4? (a b c d : Char) : Option Nat := do
  let a ← hexDigit? a
  let b ← hexDigit? b
  let c ← hexDigit? c
  let d ← hexDigit? d
  return ((a * 16 + b) * 16 + c) * 16 + d

/-- The character that a letter stands for behind a backslash. -/
def escape? : Char → Option Char
  | '"' => some '"'
  | '\\' => some '\\'
  | '/' => some '/'
  | 'b' => some '\x08'
  | 'f' => some '\x0c'
  | 'n' => some '\n'
  | 'r' => some '\r'
  | 't' => some '\t'
  | _ => none

/-- The pieces of a string literal up to its closing quote, and the text behind it. Control
characters must be escaped, and an escape that is not known is a fault. -/
def pieces? : List Char → Option (List Piece × List Char)
  | [] => none
  | '"' :: rest => some ([], rest)
  | '\\' :: 'u' :: a :: b :: c :: d :: rest => do
    let n ← hex4? a b c d
    let (more, rest) ← pieces? rest
    return (.unit n :: more, rest)
  | '\\' :: e :: rest => do
    let c ← escape? e
    let (more, rest) ← pieces? rest
    return (.char c :: more, rest)
  | c :: rest =>
    if c.toNat < 0x20 then none
    else do
      let (more, rest) ← pieces? rest
      return (.char c :: more, rest)

/-- Whether a code unit is the first half of a surrogate pair. -/
def isHighSurrogate (n : Nat) : Bool := decide (0xD800 ≤ n ∧ n < 0xDC00)

/-- Whether a code unit is the second half of a surrogate pair. -/
def isLowSurrogate (n : Nat) : Bool := decide (0xDC00 ≤ n ∧ n < 0xE000)

/-- The characters that pieces spell out, two halves of a surrogate pair being one; none if half of
a pair stands alone. -/
def chars? : List Piece → Option (List Char)
  | [] => some []
  | .char c :: rest => (chars? rest).map (c :: ·)
  | .unit n :: .unit m :: rest =>
    if isHighSurrogate n then
      if isLowSurrogate m then
        (chars? rest).map (Char.ofNat (0x10000 + (n - 0xD800) * 0x400 + (m - 0xDC00)) :: ·)
      else none
    else if isLowSurrogate n then none
    else (chars? (.unit m :: rest)).map (Char.ofNat n :: ·)
  | .unit n :: rest =>
    if isHighSurrogate n ∨ isLowSurrogate n then none
    else (chars? rest).map (Char.ofNat n :: ·)

/-- The text of a string literal from behind its opening quote. -/
def string? (cs : List Char) : Option (Option String × List Char) :=
  (pieces? cs).map fun (ps, rest) => ((chars? ps).map String.ofList, rest)

/-! ## Numbers -/

/-- An optional fraction: a point and at least one digit. The digits come with the rest. -/
def fractionPart? : List Char → Option (Option (List Char) × List Char)
  | '.' :: rest =>
    let (digits, rest) := Decimal.spanDigits rest
    if digits = [] then none else some (some digits, rest)
  | rest => some (none, rest)

/-- An optional exponent: a letter, an optional sign and at least one digit. The value comes with
the rest. -/
def exponentPart? : List Char → Option (Option Int × List Char)
  | [] => some (none, [])
  | c :: rest =>
    if c = 'e' ∨ c = 'E' then
      let (negative, rest) := Text.sign rest
      let (digits, rest) := Decimal.spanDigits rest
      if digits = [] then none
      else
        let n : Int := Nat.ofDigitChars 10 digits 0
        some (some (if negative then -n else n), rest)
    else some (none, c :: rest)

/-- A number literal: an optional minus sign, digits that start with a zero only if there is no
other digit, an optional fraction and an optional exponent. A literal without value is no fault of
the grammar; it matters once its value is asked for. -/
def number? (cs : List Char) : Option (Option Number × List Char) := do
  let (negative, cs) :=
    match cs with
    | '-' :: rest => (true, rest)
    | _ => (false, cs)
  let (whole, rest) :=
    match cs with
    | '0' :: rest => (['0'], rest)
    | _ => Decimal.spanDigits cs
  if whole = [] then none
  else
    let (fraction, rest) ← fractionPart? rest
    let (exponent, rest) ← exponentPart? rest
    let literal : Literal := ⟨negative, whole, fraction, exponent⟩
    return (literal.value?, rest)

/-! ## Values -/

/-- Drops the white space of JSON: space, tab, line feed and carriage return. -/
def skipSpace (cs : List Char) : List Char :=
  cs.dropWhile fun c => c = ' ' || c = '\t' || c = '\n' || c = '\r'

/-- Splits a given word off the front of a text. -/
def word? (word cs : List Char) : Option (List Char) :=
  if word.isPrefixOf cs then some (cs.drop word.length) else none

/-- The name of a member and the colon behind it. -/
def name? : List Char → Option (Option String × List Char)
  | '"' :: rest => do
    let (name, rest) ← string? rest
    match skipSpace rest with
    | ':' :: rest => return (name, rest)
    | _ => none
  | _ => none

/-- The tree of a part of a text, and the rest, which is none behind a fault. -/
abbrev Parsed (α : Type) := α × Option (List Char)

/-- What a reader of a part made of a text, or the fault. -/
def orFault {α : Type} (tree : α → Raw) : Option (α × List Char) → Parsed Raw
  | some (a, rest) => (tree a, some rest)
  | none => (.fault, none)

mutual

/-- A value at the start of a text. Every call takes one of `fuel`; a call that consumes no
character is never followed by another such call, so twice the length of the text and one more is
enough. -/
def value (fuel : Nat) (cs : List Char) : Parsed Raw :=
  match fuel with
  | 0 => (.fault, none)
  | fuel + 1 =>
    match skipSpace cs with
    | 'n' :: rest => orFault (fun _ => .null) ((word? ['u', 'l', 'l'] rest).map ((), ·))
    | 't' :: rest => orFault (fun _ => .bool true) ((word? ['r', 'u', 'e'] rest).map ((), ·))
    | 'f' :: rest => orFault (fun _ => .bool false) ((word? ['a', 'l', 's', 'e'] rest).map ((), ·))
    | '"' :: rest => orFault .str (string? rest)
    | '[' :: rest =>
      match skipSpace rest with
      | ']' :: rest => (.arr [], some rest)
      | rest =>
        let (vs, rest) := items fuel rest
        (.arr vs, rest)
    | '\x7b' :: rest =>
      match skipSpace rest with
      | '\x7d' :: rest => (.obj [], some rest)
      | rest =>
        let (ms, rest) := members fuel rest
        (.obj ms, rest)
    | rest => orFault .num (number? rest)

/-- The items of a list up to its closing bracket; there is at least one. -/
def items (fuel : Nat) (cs : List Char) : Parsed (List Raw) :=
  match fuel with
  | 0 => ([.fault], none)
  | fuel + 1 =>
    match value fuel cs with
    | (v, none) => ([v, .fault], none)
    | (v, some rest) =>
      match skipSpace rest with
      | ',' :: rest =>
        let (vs, rest) := items fuel rest
        (v :: vs, rest)
      | ']' :: rest => ([v], some rest)
      | _ => ([v, .fault], none)

/-- The members of an object up to its closing brace; there is at least one. -/
def members (fuel : Nat) (cs : List Char) : Parsed (List (Option String × Raw)) :=
  match fuel with
  | 0 => ([(none, .fault)], none)
  | fuel + 1 =>
    match name? (skipSpace cs) with
    | none => ([(none, .fault)], none)
    | some (name, rest) =>
      match value fuel rest with
      | (v, none) => ([(name, v), (none, .fault)], none)
      | (v, some rest) =>
        match skipSpace rest with
        | ',' :: rest =>
          let (ms, rest) := members fuel rest
          ((name, v) :: ms, rest)
        | '\x7d' :: rest => ([(name, v)], some rest)
        | _ => ([(name, v), (none, .fault)], none)

end

/-- The tree of a text, and whether the text is that one JSON value, with white space around it at
most. -/
def parse (s : String) : Raw × Bool :=
  match value (2 * s.toList.length + 1) s.toList with
  | (v, some rest) => (v, skipSpace rest = [])
  | (v, none) => (v, false)

/-- The tree of a text that is one JSON value, with white space around it at most. -/
def parse? (s : String) : Option Raw := if (parse s).2 then some (parse s).1 else none

/-! ## Values of trees -/

/-- Lists and objects are nested at most this deep. -/
def maxDepth : Nat := 127

mutual

/-- The value of a tree in which lists and objects are nested at most `depth` deep. All of the tree
has to have a value, and a repeated name has its first place and its last value. -/
def value? (depth : Nat) : Raw → Option Json
  | .null => some .null
  | .bool b => some (.bool b)
  | .num n => n.map .num
  | .str s => s.map .str
  | .arr items =>
    match depth with
    | 0 => none
    | depth + 1 => (itemValues? depth items).map .arr
  | .obj members =>
    match depth with
    | 0 => none
    | depth + 1 => (memberValues? depth members).map fun ms => .obj (OrderedMap.ofList ms)
  | .fault => none

/-- The values of the items of a list. -/
def itemValues? (depth : Nat) : List Raw → Option (List Json)
  | [] => some []
  | v :: rest => do
    let v ← value? depth v
    let rest ← itemValues? depth rest
    return v :: rest

/-- The members of an object with their values, repeated names included. -/
def memberValues? (depth : Nat) : List (Option String × Raw) → Option (List (String × Json))
  | [] => some []
  | (name, v) :: rest => do
    let name ← name
    let v ← value? depth v
    let rest ← memberValues? depth rest
    return (name, v) :: rest

end

end Raw

/-- The value of a JSON text: the text has to be JSON throughout, all of it has to have a value, and
nesting is bounded. -/
def parse? (s : String) : Option Json := (Raw.parse? s).bind (Raw.value? Raw.maxDepth)

end RuleEditor.Json
