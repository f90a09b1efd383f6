import RuleEditor.Proofs.Expression.Flatten
import RuleEditor.Proofs.Form.ActionRow.Stored
import RuleEditor.Proofs.Form.Validation
import RuleEditor.Proofs.Portable.RoundTrip

/-!
# Accepted forms and portable documents

Validation and import both list what a rule has to have, and the two lists differ in one place:
a condition without an operator passes validation but not import. In all other respects the rule of
an accepted form is portable, and nothing of it is lost on the way.

## Main results

* `Form.carried_toRule` — a document keeps all of a rule that was saved from a form.
* `Form.isPortable_toRule_iff` — what makes the rule of an accepted form portable.
* `Portable.importJson_of_compile_iff` — the rule of an accepted form comes back from its document
  exactly if every condition has an operator.
-/

set_option relaxedAutoImplicit false
set_option autoImplicit false

namespace RuleEditor

/-- A document keeps all of a comparison that was saved from a row: the right side is a path that is
not blank, or a literal other than `null`. Saving a row never gives one of the right sides that get
lost. -/
lemma ConditionRow.carried_toCondition (r : ConditionRow) :
    r.toCondition.carried = r.toCondition := by
  have hoperand : r.operand.carried? = some r.operand := by
    unfold operand
    cases hpath : r.referencedPath? with
    | some p =>
      obtain ⟨s, _, hs⟩ := Option.bind_eq_some_iff.1 hpath
      obtain ⟨hblank, rfl⟩ := Text.nonBlank?_eq_some_iff.1 hs
      simp [Operand.carried?, hblank]
    | none =>
      have hnull : (r.valueType.read r.value).isNull = false := by
        unfold ValueType.read
        split
        · rfl
        · rfl
        · split <;> rfl
      simp [Operand.carried?, hnull]
  simp [Condition.carried, toCondition, hoperand]

namespace Form

/-- A document keeps all of a rule that was saved from a form: its description is not blank if there
is one, its expression is flat, and its comparisons come from rows. -/
theorem carried_toRule (catalog : Catalog) (f : Form) :
    (f.toRule catalog).carried = f.toRule catalog := by
  have hdescription : (Text.nonBlank? f.description).filter (fun s => !Text.isBlank s)
      = Text.nonBlank? f.description := by
    cases h : Text.nonBlank? f.description with
    | none => rfl
    | some s =>
      obtain ⟨hblank, rfl⟩ := Text.nonBlank?_eq_some_iff.1 h
      simp [hblank]
  have hconditions : (f.conditions.map ConditionRow.toCondition).map Condition.carried
      = f.conditions.map ConditionRow.toCondition := by
    simp [ConditionRow.carried_toCondition]
  simp [Rule.carried, toRule, hdescription, hconditions]

/-- The rule of an accepted form is portable exactly if every condition has an operator. All else
that a document has to have is asked for by validation too. -/
theorem isPortable_toRule_iff {events operators actions : Json} {f : Form}
    (h : f.IsComplete (.ofSections events operators actions)) :
    (f.toRule (.ofSections events operators actions)).IsPortable ↔
      ∀ c ∈ f.conditions, Text.isBlank c.operator = false := by
  constructor
  · intro hportable c hc
    exact hportable.op c.toCondition (by simpa [toRule] using List.mem_map_of_mem hc)
  · intro hoperators
    refine ⟨?_, ?_, ?_, ?_, ?_⟩
    · simpa [toRule] using h.conditions_ne_nil
    · intro c hc
      obtain ⟨row, hrow, rfl⟩ : ∃ row ∈ f.conditions, row.toCondition = c := by
        simpa [toRule] using hc
      simpa [ConditionRow.toCondition] using (h.conditions row hrow).1
    · intro c hc
      obtain ⟨row, hrow, rfl⟩ : ∃ row ∈ f.conditions, row.toCondition = c := by
        simpa [toRule] using hc
      exact hoperators row hrow
    · simpa [toRule] using h.actions_ne_nil
    · intro a ha
      obtain ⟨row, hrow, rfl⟩ := List.mem_map.1 ha
      simpa using (h.actions row hrow).isBlank_type

end Form

namespace Portable

/-- **Accepted rules are portable but for blank operators.** Under a catalog that was read from raw
sections, the rule of an accepted form is imported from its document, and is the identical rule,
exactly if every condition of the form has an operator.

**Proof sketch.** Importing gives back what the document keeps of the rule, which is all of it
(`Form.carried_toRule`), provided that the rule is portable (`Form.isPortable_toRule_iff`). -/
theorem importJson_of_compile_iff {events operators actions : Json} {f : Form} {r : Rule}
    (h : f.compile (.ofSections events operators actions) = .ok r) :
    importJson r.toDocument.toJson = .ok r ↔
      ∀ c ∈ f.conditions, Text.isBlank c.operator = false := by
  obtain ⟨hcomplete, rfl⟩ := (Form.compile_eq_ok_iff _ _ _).1 h
  rw [importJson_toDocument_eq_ok_iff, Form.carried_toRule, Form.isPortable_toRule_iff hcomplete]
  exact and_iff_left rfl

/-- The actions of a catalog with one action, which needs a list of tags. -/
def tagSection : Json :=
  .arr [.obj [("type", .str "tag"), ("params", .arr [.obj [("name", .str "tags"),
    ("kind", .str "array<string>"), ("required", .bool true)]])]]

/-- A form with one condition, which has the given operator, and one action. -/
def formWithOperator (operator : String) : Form where
  name := "r"
  event := "e"
  conditions := [{ path := "$.a", operator, comparePath := some " $.b " }]
  actions := [{ id := "action-1", type := " tag", params := [("tags", .text "x, y")] }]

/-- A complete form whose condition has an operator: its rule comes back from its document. -/
theorem importJson_of_compile_eq :
    let f := formWithOperator "=="
    let r := f.toRule (.ofSections .null .null tagSection)
    f.compile (.ofSections .null .null tagSection) = .ok r ∧
      (importJson r.toDocument.toJson = .ok r ↔
        ∀ c ∈ f.conditions, Text.isBlank c.operator = false) := by
  have h : (formWithOperator "==").compile (.ofSections .null .null tagSection) =
      .ok ((formWithOperator "==").toRule (.ofSections .null .null tagSection)) := by
    rfl
  exact ⟨h, importJson_of_compile_iff h⟩

/-- A form whose condition has a blank operator is accepted, but the document of its rule is refused
on import. -/
theorem importJson_of_blank_operator :
    let f := formWithOperator ""
    let r := f.toRule (.ofSections .null .null tagSection)
    f.compile (.ofSections .null .null tagSection) = .ok r ∧
      importJson r.toDocument.toJson = .error (.conditionMissingOperator 1) := by
  exact ⟨rfl, rfl⟩

end Portable

end RuleEditor
