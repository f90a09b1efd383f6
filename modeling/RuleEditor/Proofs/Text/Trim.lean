import Mathlib.Data.List.DropRight
import RuleEditor.Text.Blank

/-!
# Trimming

Trimming removes the white space at both ends of a text and nothing else. A text that was trimmed
once stays as it is, and it is empty exactly if the text was blank.

## Main definitions

* `Text.IsTidy` — a text is trimmed and not empty.

## Main results

* `Text.trim_trim` — trimming twice is trimming once.
* `Text.isBlank_iff_trim_eq_empty` — the blank texts are those of which nothing is left.
* `Text.nonBlank?_eq_some_iff` — a text that is not blank gives its trimmed form.
* `Text.trimChars_eq_self` — a text whose ends are no white space is trimmed.
* `Text.trim_append_append` — white space around a text does not count.
-/

set_option relaxedAutoImplicit false
set_option autoImplicit false

namespace RuleEditor.Text

/-- Trimming drops white space from the front and then from the back. -/
lemma trimChars_eq_rdropWhile (cs : List Char) :
    trimChars cs = (cs.dropWhile isSpace).rdropWhile isSpace := rfl

/-- A text that neither begins nor ends with white space is trimmed. White space within it does no
harm. -/
theorem trimChars_eq_self {cs : List Char} (hhead : ∀ c ∈ cs.head?, isSpace c = false)
    (hlast : ∀ c ∈ cs.getLast?, isSpace c = false) : trimChars cs = cs := by
  have hfront : cs.dropWhile isSpace = cs := by
    cases cs with
    | nil => rfl
    | cons c rest => simp [hhead c (by simp)]
  rw [trimChars_eq_rdropWhile, hfront, List.rdropWhile_eq_self_iff]
  intro hne
  simp [hlast _ (List.getLast?_eq_some_getLast hne)]

/-- A trimmed text does not begin with white space.

**Proof sketch.** What is left after the white space in front is dropped begins with another
character, and dropping characters from the back keeps the first one as long as any is left. -/
lemma head?_trimChars {cs : List Char} {c : Char} (hc : c ∈ (trimChars cs).head?) :
    isSpace c = false := by
  rw [trimChars_eq_rdropWhile] at hc
  obtain ⟨rest, hrest⟩ := List.rdropWhile_prefix isSpace (cs.dropWhile isSpace)
  have hhead : c ∈ (cs.dropWhile isSpace).head? := by
    rw [← hrest]
    cases hd : (cs.dropWhile isSpace).rdropWhile isSpace with
    | nil => simp [hd] at hc
    | cons d ds =>
      rw [hd] at hc
      simpa using hc
  have hne : cs.dropWhile isSpace ≠ [] := by
    intro hnil
    simp [hnil] at hhead
  have hnot := List.head_dropWhile_not isSpace hne
  rw [List.head?_eq_some_head hne, Option.mem_def, Option.some.injEq] at hhead
  rw [← hhead]
  exact hnot

/-- A trimmed text does not end with white space. -/
lemma getLast?_trimChars {cs : List Char} {c : Char} (hc : c ∈ (trimChars cs).getLast?) :
    isSpace c = false := by
  rw [trimChars_eq_rdropWhile] at hc
  have hne : (cs.dropWhile isSpace).rdropWhile isSpace ≠ [] := by
    intro hnil
    simp [hnil] at hc
  rw [List.getLast?_eq_some_getLast hne, Option.mem_def, Option.some.injEq] at hc
  rw [← hc]
  simpa using List.rdropWhile_last_not isSpace _ hne

/-- Trimming the characters of a text twice is trimming them once. -/
@[simp] lemma trimChars_trimChars (cs : List Char) : trimChars (trimChars cs) = trimChars cs :=
  trimChars_eq_self (fun _ hc => head?_trimChars hc) (fun _ hc => getLast?_trimChars hc)

/-- Trimming only leaves characters away. -/
lemma mem_of_mem_trimChars {cs : List Char} {c : Char} (hc : c ∈ trimChars cs) : c ∈ cs := by
  rw [trimChars_eq_rdropWhile] at hc
  exact (List.dropWhile_suffix isSpace).subset ((List.rdropWhile_prefix isSpace _).subset hc)

/-- White space in front of a text does not count. -/
lemma trimChars_append_of_isSpace {space cs : List Char} (h : ∀ c ∈ space, isSpace c = true) :
    trimChars (space ++ cs) = trimChars cs := by
  rw [trimChars, List.dropWhile_append_of_pos h, trimChars]

/-- White space behind a text does not count.

**Proof sketch.** What is dropped from the front ends within the text, unless all of it is white
space, and then nothing is left of either. -/
lemma trimChars_append_right_of_isSpace {space cs : List Char}
    (h : ∀ c ∈ space, isSpace c = true) : trimChars (cs ++ space) = trimChars cs := by
  have hreverse : ∀ c ∈ space.reverse, isSpace c = true := fun c hc => h c (List.mem_reverse.1 hc)
  have hspace : space.dropWhile isSpace = [] := List.dropWhile_eq_nil_iff.2 h
  rw [trimChars, trimChars, List.dropWhile_append]
  split
  · next hnil => rw [hspace, List.isEmpty_iff.1 hnil]
  · rw [List.reverse_append, List.dropWhile_append_of_pos hreverse]

/-- White space around a text does not count, however much there is of it on either side. -/
theorem trim_append_append {before after : String} (hbefore : isBlank before = true)
    (hafter : isBlank after = true) (s : String) : trim (before ++ s ++ after) = trim s := by
  have hchars : trimChars (before ++ s ++ after).toList = trimChars s.toList := by
    rw [String.toList_append, String.toList_append,
      trimChars_append_right_of_isSpace (List.all_eq_true.1 hafter),
      trimChars_append_of_isSpace (List.all_eq_true.1 hbefore)]
  rw [trim, hchars, trim]

/-- Trimming a text twice is trimming it once, so that it does not matter how often a text goes
through a form. -/
@[simp] theorem trim_trim (s : String) : trim (trim s) = trim s := by
  simp [trim]

/-- Nothing is left of a text by trimming exactly if it is white space alone. -/
lemma trimChars_eq_nil_iff {cs : List Char} : trimChars cs = [] ↔ ∀ c ∈ cs, isSpace c := by
  rw [trimChars_eq_rdropWhile, List.rdropWhile_eq_nil_iff]
  constructor
  · intro h
    -- what is left in front of the first other character would begin with that character
    by_contra hex
    have hne : cs.dropWhile isSpace ≠ [] := by
      rw [ne_eq, List.dropWhile_eq_nil_iff]
      exact hex
    have hnot := List.head_dropWhile_not isSpace hne
    rw [h _ (List.head_mem hne)] at hnot
    exact absurd hnot (by decide)
  · intro h c hc
    exact h c ((List.dropWhile_suffix isSpace).subset hc)

/-- The blank texts are those of which trimming leaves nothing. So asking for a text that is not
blank and asking for one that is not empty once trimmed come to the same. -/
theorem isBlank_iff_trim_eq_empty {s : String} : isBlank s = true ↔ trim s = "" := by
  rw [isBlank, List.all_eq_true, ← trimChars_eq_nil_iff, ← toList_trim, String.toList_eq_nil_iff]

/-- The texts that are not blank are those of which trimming leaves something. -/
lemma isBlank_eq_false_iff {s : String} : isBlank s = false ↔ trim s ≠ "" := by
  rw [← Bool.not_eq_true, isBlank_iff_trim_eq_empty]

/-- Trimming keeps a text blank or not blank. -/
@[simp] lemma isBlank_trim (s : String) : isBlank (trim s) = isBlank s := by
  rw [Bool.eq_iff_iff, isBlank_iff_trim_eq_empty, isBlank_iff_trim_eq_empty, trim_trim]

/-- A text that is trimmed and not empty. This is the form in which names are stored, and it says
more than that the text is not blank. -/
def IsTidy (s : String) : Prop := trim s = s ∧ s ≠ ""

/-- Trimming a text that is not blank makes it tidy. -/
lemma isTidy_trim {s : String} (h : isBlank s = false) : IsTidy (trim s) :=
  ⟨trim_trim s, isBlank_eq_false_iff.1 h⟩

/-- The trimmed form of a text, if it is there at all, belongs to a text that is not blank, and is
what trimming leaves of it. -/
theorem nonBlank?_eq_some_iff {s t : String} :
    nonBlank? s = some t ↔ isBlank s = false ∧ trim s = t := by
  cases h : isBlank s <;> simp [nonBlank?, h]

/-- The trimmed form of a text is its own trimmed form. -/
lemma nonBlank?_of_eq_some {s t : String} (h : nonBlank? s = some t) : nonBlank? t = some t := by
  obtain ⟨hblank, rfl⟩ := nonBlank?_eq_some_iff.1 h
  simp [nonBlank?_eq_some_iff, hblank]

/-- The trimmed form of a text, where it counts, is trimmed and not empty. -/
lemma isTidy_of_nonBlank? {s t : String} (h : nonBlank? s = some t) : IsTidy t := by
  obtain ⟨hblank, rfl⟩ := nonBlank?_eq_some_iff.1 h
  exact isTidy_trim hblank

/-- A trimmed text that is not empty is its own trimmed form. -/
lemma nonBlank?_of_trim_eq {s : String} (htrim : trim s = s) (hne : s ≠ "") :
    nonBlank? s = some s := by
  rw [nonBlank?_eq_some_iff, isBlank_eq_false_iff, htrim]
  exact ⟨hne, rfl⟩

end RuleEditor.Text
