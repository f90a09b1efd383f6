import RuleEditor.Json.Basic

/-!
# Texts of JSON values

A value has a compact text, without white space, and a pretty one, with a line for each item and
member and two spaces for each level of nesting.

## Main definitions

* `Json.quote` — the literal of a string.
* `Json.compact`, `Json.pretty` — the two texts.
-/

namespace RuleEditor.Json

/-- The hexadecimal digit of a number below sixteen. -/
def hexDigit (n : Nat) : Char := (Nat.toDigits 16 n).headD '0'

/-- A character inside a string literal. Quotes, backslashes and control characters are escaped,
by a letter where there is one. -/
def escapeChar (c : Char) : List Char :=
  if c = '"' then ['\\', '"']
  else if c = '\\' then ['\\', '\\']
  else if c = '\x08' then ['\\', 'b']
  else if c = '\x0c' then ['\\', 'f']
  else if c = '\n' then ['\\', 'n']
  else if c = '\r' then ['\\', 'r']
  else if c = '\t' then ['\\', 't']
  else if c.toNat < 0x20 then
    ['\\', 'u', '0', '0', hexDigit (c.toNat / 16), hexDigit (c.toNat % 16)]
  else [c]

/-- The literal of a string. -/
def quoteChars (s : String) : List Char := '"' :: (s.toList.flatMap escapeChar ++ ['"'])

mutual

/-- The compact text of a value, as characters. -/
def compactChars : Json → List Char
  | .null => ['n', 'u', 'l', 'l']
  | .bool true => ['t', 'r', 'u', 'e']
  | .bool false => ['f', 'a', 'l', 's', 'e']
  | .num n => n.text
  | .str s => quoteChars s
  | .arr [] => ['[', ']']
  | .arr (v :: rest) => '[' :: (compactChars v ++ compactItems rest)
  | .obj [] => ['\x7b', '\x7d']
  | .obj ((name, v) :: rest) =>
    '\x7b' :: (quoteChars name ++ ':' :: (compactChars v ++ compactMembers rest))

/-- The items of a list behind the first, and the closing bracket. -/
def compactItems : List Json → List Char
  | [] => [']']
  | v :: rest => ',' :: (compactChars v ++ compactItems rest)

/-- The members of an object behind the first, and the closing brace. -/
def compactMembers : List (String × Json) → List Char
  | [] => ['\x7d']
  | (name, v) :: rest =>
    ',' :: (quoteChars name ++ ':' :: (compactChars v ++ compactMembers rest))

end

/-- The compact text of a value, on one line and without white space outside of strings. Lists and
objects appear in this form where they are edited as texts. -/
def compact (v : Json) : String := String.ofList v.compactChars

/-- A new line at a level of nesting. -/
def newLine (level : Nat) : List Char := '\n' :: List.replicate (2 * level) ' '

mutual

/-- The pretty text of a value at a level of nesting, as characters. -/
def prettyChars (level : Nat) : Json → List Char
  | .arr (v :: rest) =>
    '[' :: (newLine (level + 1) ++ prettyChars (level + 1) v ++ prettyItems level rest)
  | .obj ((name, v) :: rest) =>
    '\x7b' :: (newLine (level + 1) ++ quoteChars name ++ ':' :: ' ' ::
      (prettyChars (level + 1) v ++ prettyMembers level rest))
  | v => compactChars v

/-- The items of a list behind the first, and the closing bracket on a line of its own. -/
def prettyItems (level : Nat) : List Json → List Char
  | [] => newLine level ++ [']']
  | v :: rest =>
    ',' :: (newLine (level + 1) ++ prettyChars (level + 1) v ++ prettyItems level rest)

/-- The members of an object behind the first, and the closing brace on a line of its own. -/
def prettyMembers (level : Nat) : List (String × Json) → List Char
  | [] => newLine level ++ ['\x7d']
  | (name, v) :: rest =>
    ',' :: (newLine (level + 1) ++ quoteChars name ++ ':' :: ' ' ::
      (prettyChars (level + 1) v ++ prettyMembers level rest))

end

/-- The pretty text of a value. -/
def pretty (v : Json) : String := String.ofList (v.prettyChars 0)

end RuleEditor.Json
