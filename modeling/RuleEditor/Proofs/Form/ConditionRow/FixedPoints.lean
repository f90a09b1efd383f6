import RuleEditor.Proofs.Form.ConditionRow

/-!
# Fixed points of conditions and values

The conditions that come back from their rows are exactly the canonical ones, and saving a row gives
no others, so that one save brings every condition to a fixed point. It makes no difference whether
"comes back" is said of the condition itself or of its value, where the sign of zero and the order
of members do not count. In the same way, a text that was read as a value of some type reads as that
value once more after the value was shown.

## Main results

* `Condition.same_iff` — a canonical condition has the value of no other condition.
* `ValueType.exists_read_eq_iff` — the values that texts stand for are the canonical literals.
* `ValueType.read_editText_read` — reading a text, showing the value and reading it again.
* `ConditionRow.toCondition_ofCondition_iff` — which conditions come back from their rows.
-/

set_option relaxedAutoImplicit false
set_option autoImplicit false

namespace RuleEditor

/-! ## Equality as values -/

/-- A canonical right side has the value of no other right side. -/
theorem Operand.same_iff {a b : Operand} (ha : a.IsCanonical) : a.same b = true ↔ a = b := by
  cases a with
  | path p => cases b <;> simp [same]
  | literal v =>
    cases b with
    | path q => simp [same]
    | literal w =>
      cases v with
      | str s => cases w <;> simp [same, Json.same]
      | bool b => cases w <;> simp [same, Json.same]
      | num m =>
        have hm : ∀ n, m.same n = true ↔ m = n := fun n => Json.Number.same_iff ha
        cases w <;> simp [same, Json.same, hm]
      | null => exact absurd ha id
      | arr items => exact absurd ha id
      | obj members => exact absurd ha id

/-- A canonical condition has the value of no other condition. Equality as values does not look at
the sign of zero or the order of members, but a canonical right side has neither a zero with a sign
nor members. -/
theorem Condition.same_iff {c d : Condition} (hc : c.IsCanonical) : c.same d = true ↔ c = d := by
  obtain ⟨op, path, right⟩ := c
  obtain ⟨op', path', right'⟩ := d
  obtain ⟨-, operand, hright, hoperand⟩ := hc
  simp only at hright
  subst hright
  cases right' with
  | none => simp [same]
  | some operand' => simp [same, Operand.same_iff hoperand, and_assoc]

namespace ValueType

/-! ## Values of texts -/

/-- The values that texts stand for are the canonical literals: each of them is read from its own
text, and no text is read as anything else. -/
theorem exists_read_eq_iff {v : Json} :
    (∃ (t : ValueType) (s : String), t.read s = v) ↔ (Operand.literal v).IsCanonical := by
  constructor
  · rintro ⟨t, s, rfl⟩
    exact isCanonical_read t s
  · exact fun h => ⟨ofJson v, v.editText, read_editText h⟩

/-- A text stands for a value of the type that it is read as, or else for itself. -/
lemma ofJson_read (t : ValueType) (s : String) : ofJson (t.read s) = t ∨ t.read s = .str s := by
  cases t with
  | string => exact .inl rfl
  | boolean => exact .inl rfl
  | number =>
    unfold read
    cases number? (Text.trimChars s.toList) with
    | none => exact .inr rfl
    | some n => exact .inl rfl

/-- **Reading a text, showing the value and reading what is shown gives the value**, with integers
and floating-point numbers kept apart.

**Proof sketch.** The value is canonical. If it has the type that the text was read as, it is read
back from its own text (`read_editText`); if not, the text stands for itself and is shown as it
is. -/
theorem read_editText_read (t : ValueType) (s : String) :
    t.read (t.read s).editText = t.read s := by
  rcases ofJson_read t s with htype | htext
  · have hback := read_editText (isCanonical_read t s)
    rwa [htype] at hback
  · have hshown : (t.read s).editText = s := by rw [htext, Json.editText]
    rw [hshown]

/-- The text may change: an integer that is too large for 64 bits is shown as the floating-point
number that it was read as. -/
example : (number.read "9223372036854775808").editText = "9.223372036854776e+18" := by
  decide +kernel

end ValueType

namespace ConditionRow

/-! ## Conditions and their rows -/

/-- **The conditions that come back from their rows are the canonical ones**, be it themselves or
just their values, and **one save makes any condition one of them**.

**Proof sketch.** What is saved from a row is canonical (`isCanonical_toCondition`), so a condition
that comes back is, and no other condition has its value (`Condition.same_iff`). Canonical
conditions come back by `toCondition_ofCondition`. -/
theorem toCondition_ofCondition_iff :
    (∀ c : Condition, ((ofCondition c).toCondition = c ↔ c.IsCanonical) ∧
        ((ofCondition c).toCondition.same c = true ↔ c.IsCanonical)) ∧
      ∀ r : ConditionRow, r.toCondition.IsCanonical ∧
        (ofCondition r.toCondition).toCondition = r.toCondition := by
  have hback : ∀ c : Condition, (ofCondition c).toCondition = c ↔ c.IsCanonical := by
    intro c
    refine ⟨fun h => ?_, toCondition_ofCondition⟩
    rw [← h]
    exact isCanonical_toCondition _
  refine ⟨fun c => ⟨hback c, ?_⟩, fun r => ?_⟩
  · rw [Condition.same_iff (isCanonical_toCondition _)]
    exact hback c
  · have hcanonical := r.isCanonical_toCondition
    exact ⟨hcanonical, (hback _).2 hcanonical⟩

end ConditionRow

end RuleEditor
