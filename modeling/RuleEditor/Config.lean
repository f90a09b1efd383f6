import RuleEditor.Json.Record
import RuleEditor.Text.Blank

/-!
# Configuration

What a new form begins with, where the catalog does not say. The values come from a record, or from
variables of the environment; a variable that is blank or that does not fit is passed over.

## Main definitions

* `Config` — the configuration.
* `Environment` — the variables of an environment.
* `Config.ofEnvironment` — the configuration that an environment gives.
-/

namespace RuleEditor

/-- The defaults of new forms. They only matter where the catalog has nothing to offer, and for the
priority. -/
structure Config where
  /-- The priority. -/
  defaultPriority : Int64 := 10
  /-- The operator of a condition, if the catalog has none. -/
  defaultOperator : String := "=="
deriving DecidableEq, Repr, Inhabited

/-- The variables of an environment with their values. -/
abbrev Environment := OrderedMap String

namespace Environment

/-- The variable for the default priority. -/
def priorityVariable : String := "RULEFORGE_DEFAULT_PRIORITY"

/-- The variable for the default operator. -/
def operatorVariable : String := "RULEFORGE_DEFAULT_OPERATOR"

/-- The variable whose presence asks for detailed logs. -/
def debugVariable : String := "RULEFORGE_DEBUG"

/-- The value of a variable, trimmed, unless it is blank. -/
def nonBlank? (env : Environment) (name : String) : Option String :=
  (OrderedMap.get? env name).bind Text.nonBlank?

/-- Whether detailed logs are asked for. -/
def isDebug (env : Environment) : Bool := OrderedMap.contains env debugVariable

end Environment

namespace Config

/-- The form of the record in text. -/
def shape : Json.Shape := .ofNames ["default_priority", "default_operator"]

/-- Reads the record of a configuration. -/
def ofJson? (v : Json) : Option Config := do
  let o ← Json.fields? shape.names v
  let defaultPriority ← o.orElse Json.int64? 10 "default_priority"
  let defaultOperator ← o.orElse Json.str? "==" "default_operator"
  return { defaultPriority, defaultOperator }

/-- Writes the record of a configuration. -/
def toJson (c : Config) : Json :=
  .obj [("default_priority", .ofInt64 c.defaultPriority),
    ("default_operator", .str c.defaultOperator)]

/-- The configuration that an environment gives. A variable that is missing, blank or no 64-bit
integer leaves the default in place. -/
def ofEnvironment (env : Environment) : Config where
  defaultPriority :=
    ((env.nonBlank? Environment.priorityVariable).bind fun s => Text.int64? s.toList).getD 10
  defaultOperator := (env.nonBlank? Environment.operatorVariable).getD "=="

end Config

end RuleEditor
