import RuleEditor.Catalog.Basic

/-!
# Listings of catalogs

A catalog is listed with a line for each event, operator and action: the section, the name by which
rules refer to the entry, its label and a short detail.

## Main definitions

* `Catalog.Entry`, `Catalog.entries` — the lines of a listing.
* `Catalog.table` — the lines as text, in columns.
-/

namespace RuleEditor.Catalog

/-- A line of a listing. -/
structure Entry where
  /-- The section, as a word: `event`, `operator` or `action`. -/
  kind : String
  /-- The name by which rules refer to the entry. -/
  id : String
  /-- The name to show. -/
  label : String
  /-- The description of an event, the use of values of an operator, the parameters of an action. -/
  detail : String
deriving DecidableEq, Repr

/-- How an operator uses values, as far as that is out of the ordinary. -/
def Operator.detail (op : Operator) : String :=
  if !op.valueRequired then "no value"
  else if op.multiValue then "multiple values"
  else ""

/-- The names of the parameters at the top, with a star on those that are required. -/
def Action.detail (a : Action) : String :=
  String.intercalate ", " (a.params.map fun p => if p.required then p.name ++ "*" else p.name)

/-- The lines of a listing, section by section and in the order of the catalog. -/
def entries (c : Catalog) : List Entry :=
  (c.events.map fun e => ⟨"event", e.type, e.label, e.description.getD ""⟩)
    ++ (c.operators.map fun op => ⟨"operator", op.id, op.label, op.detail⟩)
    ++ (c.actions.map fun a => ⟨"action", a.type, a.label, a.detail⟩)

/-- A text filled up with spaces to a width in characters. -/
def padRight (width : Nat) (s : String) : String :=
  String.ofList (s.toList ++ List.replicate (width - s.toList.length) ' ')

/-- Four texts as a line of a table. -/
def tableLine (a b c d : String) : String :=
  padRight 10 a ++ " " ++ padRight 24 b ++ " " ++ padRight 24 c ++ " " ++ d ++ "\n"

/-- The listing as a table with a heading, or a remark that there is nothing to list. Columns are
padded, not cut: a long name shifts the rest of its line. -/
def table (c : Catalog) : String :=
  match c.entries with
  | [] => "Catalog is empty\n"
  | entries =>
    tableLine "Section" "Id" "Label" "Detail"
      ++ String.join (entries.map fun e => tableLine e.kind e.id e.label e.detail)

end RuleEditor.Catalog
