import RuleEditor.Form.ConditionRow
import RuleEditor.Proofs.Json.Number
import RuleEditor.Proofs.Text.Trim

/-!
# Canonical conditions

A condition that is opened as a row and saved again comes back if it is canonical, and all
conditions that are saved from rows are canonical. So what is saved once stays as it is.

## Main definitions

* `Operand.IsCanonical`, `Condition.IsCanonical` — what comes back from its row.

## Main results

* `ConditionRow.toCondition_ofCondition` — a canonical condition comes back from its row.
* `ConditionRow.isCanonical_toCondition` — conditions that are saved from rows are canonical.
-/

set_option relaxedAutoImplicit false
set_option autoImplicit false

namespace RuleEditor

/-- A right side that comes back from its row: a trimmed path that is not empty, a text, a truth
value or a canonical number. Of a list, an object or `null` the row has only a text, which is read
as a text again. -/
def Operand.IsCanonical : Operand → Prop
  | .path p => Text.trim p = p ∧ p ≠ ""
  | .literal (.str _) => True
  | .literal (.bool _) => True
  | .literal (.num n) => n.IsCanonical
  | .literal _ => False

/-- A condition that comes back from its row: its path is trimmed, and it has a right side that
comes back. The operator may be any text, since it is saved as it is. -/
structure Condition.IsCanonical (c : Condition) : Prop where
  /-- The path has no white space around it. -/
  path : Text.trim c.path = c.path
  /-- There is a right side, which comes back. -/
  right : ∃ operand, c.right = some operand ∧ operand.IsCanonical

namespace ValueType

/-! ## Reading values -/

/-- The number that a text stands for is canonical. -/
lemma isCanonical_of_number? {cs : List Char} {n : Json.Number} (h : number? cs = some n) :
    n.IsCanonical := by
  unfold number? at h
  split at h
  · rw [← Option.some.inj h]
    exact Json.Number.isCanonical_ofInt64 _
  · obtain ⟨x, -, rfl⟩ := Option.map_eq_some_iff.1 h
    exact Json.Number.isCanonical_ofBinary64 x

/-- The text of a canonical number stands for that number. -/
lemma number?_display {n : Json.Number} (h : n.IsCanonical) : number? n.display = some n := by
  cases n with
  | int n =>
    obtain ⟨m, rfl⟩ := Json.Integer.exists_ofInt64_eq h
    have hread : Text.int64? (Json.Number.int (.ofInt64 m)).display = some m := Text.int64?_ofInt m
    simp only [number?, hread, Json.Number.ofInt64]
  | float x =>
    rw [Json.Number.display_float h]
    simp only [number?, Json.Number.int64?_floatText, Json.Number.ofChars?_floatText,
      Option.map_some, Json.Number.ofBinary64_eq_float h]

/-- What a text is read as is canonical. -/
lemma isCanonical_read (t : ValueType) (s : String) :
    (Operand.literal (t.read s)).IsCanonical := by
  unfold read
  split
  · trivial
  · trivial
  · split
    · next n h => exact isCanonical_of_number? h
    · trivial

/-- A canonical literal is read back from its text. -/
lemma read_editText {v : Json} (h : (Operand.literal v).IsCanonical) :
    (ofJson v).read v.editText = v := by
  cases v with
  | bool b => cases b <;> rfl
  | str s => rfl
  | num n =>
    have hread : number? (Text.trimChars (Json.num n).editText.toList) = some n := by
      rw [Json.editText, String.toList_ofList, Json.Number.trimChars_display, number?_display h]
    unfold read
    simp only [ofJson, hread]
  | null => exact absurd h id
  | arr items => exact absurd h id
  | obj members => exact absurd h id

end ValueType

namespace ConditionRow

/-! ## Rows -/

/-- The right side of a row is canonical. -/
lemma isCanonical_operand (r : ConditionRow) : r.operand.IsCanonical := by
  unfold operand
  split
  · next p h =>
    obtain ⟨s, -, hs⟩ := Option.bind_eq_some_iff.1 h
    exact Text.isTidy_of_nonBlank? hs
  · exact r.valueType.isCanonical_read r.value

/-- Conditions that are saved from rows are canonical, whatever was typed into the row: the path is
trimmed when it is saved, and what a text is read as is canonical. -/
theorem isCanonical_toCondition (r : ConditionRow) : r.toCondition.IsCanonical :=
  ⟨Text.trim_trim r.path, r.operand, rfl, r.isCanonical_operand⟩

/-- **A canonical condition comes back from its row.** A literal is shown as its text together with
its type, so that the text `1` and the number are told apart when they are read again. -/
theorem toCondition_ofCondition {c : Condition} (h : c.IsCanonical) :
    (ofCondition c).toCondition = c := by
  obtain ⟨op, path, right⟩ := c
  obtain ⟨hpath, operand, hright, hoperand⟩ := h
  simp only at hpath hright
  subst hright
  cases operand with
  | path p =>
    have hp : Text.nonBlank? p = some p := Text.nonBlank?_of_trim_eq hoperand.1 hoperand.2
    simp [toCondition, ofCondition, ConditionRow.operand, referencedPath?, hp, hpath]
  | literal v =>
    have hread : (ValueType.ofJson v).read v.editText = v := ValueType.read_editText hoperand
    simp [toCondition, ofCondition, ConditionRow.operand, referencedPath?, hread, hpath]

end ConditionRow

end RuleEditor
