/-!
# White space

Names, paths and parameter texts are compared without the white space around them. The class of
characters that counts as white space is the Unicode property `White_Space`; a zero-width space
(U+200B) and a byte order mark (U+FEFF) are not in it.

## Main definitions

* `Text.isSpace` — the property.
* `Text.trim` — a text without the white space at its ends.
* `Text.isBlank` — a text of white space alone.
-/

namespace RuleEditor.Text

/-- The characters with the Unicode property `White_Space`, as ranges of code points. -/
def spaceRanges : List (Nat × Nat) :=
  [(0x09, 0x0D), (0x20, 0x20), (0x85, 0x85), (0xA0, 0xA0), (0x1680, 0x1680), (0x2000, 0x200A),
    (0x2028, 0x2029), (0x202F, 0x202F), (0x205F, 0x205F), (0x3000, 0x3000)]

/-- Whether a character is white space. -/
def isSpace (c : Char) : Bool :=
  spaceRanges.any fun range => decide (range.1 ≤ c.toNat ∧ c.toNat ≤ range.2)

/-- The characters of a text without the white space at either end. -/
def trimChars (cs : List Char) : List Char :=
  ((cs.dropWhile isSpace).reverse.dropWhile isSpace).reverse

/-- A text without the white space at either end. White space within the text stays. -/
def trim (s : String) : String := String.ofList (trimChars s.toList)

/-- Whether a text is empty or white space alone. Wherever something has to be given, a blank text
counts as nothing given. -/
def isBlank (s : String) : Bool := s.toList.all isSpace

/-- The trimmed form of a text that holds more than white space. -/
def nonBlank? (s : String) : Option String :=
  if isBlank s then none else some (trim s)

/-- The characters of a trimmed text are the trimmed characters. -/
@[simp] theorem toList_trim (s : String) : (trim s).toList = trimChars s.toList := by
  simp [trim]

end RuleEditor.Text
