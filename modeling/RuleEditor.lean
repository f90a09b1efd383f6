import RuleEditor.Editor
import RuleEditor.Main
import RuleEditor.Proofs.Expression.Meaning
import RuleEditor.Proofs.Form.ActionRow.Agreement
import RuleEditor.Proofs.Form.ActionRow.Coverage
import RuleEditor.Proofs.Form.ActionRow.Editing
import RuleEditor.Proofs.Form.ActionRow.FixedPoints
import RuleEditor.Proofs.Form.ActionRow.Impaired
import RuleEditor.Proofs.Form.ActionRow.Opening
import RuleEditor.Proofs.Form.ActionRow.Selection
import RuleEditor.Proofs.Form.ActionRow.Switching
import RuleEditor.Proofs.Form.ActionRow.TypedObjects
import RuleEditor.Proofs.Form.ConditionRow.FixedPoints
import RuleEditor.Proofs.Form.Reading
import RuleEditor.Proofs.Form.Reopening
import RuleEditor.Proofs.Form.RowIds
import RuleEditor.Proofs.Form.Saving
import RuleEditor.Proofs.Form.WellFormed
import RuleEditor.Proofs.Portable.Accepted
import RuleEditor.Proofs.Portable.Faults
import RuleEditor.Proofs.Portable.Reimport
import RuleEditor.Proofs.Rule.Reading
import RuleEditor.Proofs.Catalog.LookUp
import RuleEditor.Proofs.Expression.Positions
import RuleEditor.Proofs.Catalog.Tidy
import RuleEditor.Proofs.Form.ActionRow.Choices
import RuleEditor.Proofs.OrderedMap.History
import RuleEditor.Proofs.Priority
import RuleEditor.Proofs.Catalog.Param.Record
import RuleEditor.Proofs.Binary64.Scaling
import RuleEditor.Proofs.Json.Literal
