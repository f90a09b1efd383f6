import RuleEditor.Catalog.Basic
import RuleEditor.Form.ActionRow

/-!
# Default values and variants

A new row holds the default values of the parameters that its action declares. Behind them come the
parameters of the variants that the values of their controllers select, to any depth. Only what is
declared at the top and in selected variants is active; when a controller is edited, the parameters
of the variants that are no longer selected give way to those of the one that now is.

## Main definitions

* `Catalog.Param.defaultValue?` — the value that a parameter begins with.
* `Params.seedDefaults`, `Params.seedVariants` — adds the values that are missing.
* `ActionRow.ofAction` — the row of a new action.
* `Catalog.Param.active` — the active parameters under given values.
* `Params.set` — edits one value.
-/

namespace RuleEditor

/-- The value that a parameter begins with; the kind of variants has none. A parameter with choices
begins with its default or the first choice, a switch is on unless the default says otherwise, and a
list begins empty. -/
def Catalog.Param.defaultValue? (p : Catalog.Param) : Option EditValue :=
  match p.kind with
  | .variant _ _ => none
  | kind =>
    if p.isSingleSelect then
      match p.default with
      | some v => some (.text v.editText)
      | none => some (.text ((p.choices.head?.map (·.value)).getD ""))
    else
      match kind with
      | .stringArray => some (.text "")
      | .object => some (.object ((p.default.bind Json.obj?).getD []))
      | .boolean => some (.flag ((p.default.map Json.strictBool).getD true))
      | _ => some (.text ((p.default.map Json.editText).getD ""))

namespace Params

open Catalog

/-- Adds the default of a parameter, unless the parameter has a value. -/
def seedDefault (m : Params) (p : Param) : Params :=
  if OrderedMap.contains m p.name then m
  else
    match p.defaultValue? with
    | some value => OrderedMap.insert m p.name value
    | none => m

/-- Adds the defaults of parameters that have no value. -/
def seedDefaults (params : List Param) (m : Params) : Params := params.foldl seedDefault m

mutual

/-- Adds the values that are missing in the selected variants of a list of parameters. -/
def seedVariants : List Param → Params → Params
  | [], m => m
  | ⟨_, kind⟩ :: rest, m => seedVariants rest (seedKind kind m)

/-- Adds the values that are missing in the selected variant of a parameter. -/
def seedKind : ParamKind → Params → Params
  | .variant controller variants, m => seedSelected (m.textOf controller) variants m
  | _, m => m

/-- Adds the values that are missing in the first variant with the given discriminator, and in the
variants selected within it. -/
def seedSelected (selected : Option String) : List Variant → Params → Params
  | [], m => m
  | ⟨discriminator, params⟩ :: rest, m =>
    if selected = some discriminator then seedVariants params (seedDefaults params m)
    else seedSelected selected rest m

end

/-- Adds all values that are missing among the parameters of an action: first the defaults at the
top, which no controller has to select, and then, parameter by parameter, those of the variants that
are selected by now. A value that is there is never replaced. -/
def seed (params : List Param) (m : Params) : Params := seedVariants params (seedDefaults params m)

end Params

/-- The row of a new action: the defaults of its parameters, and those of the variants that these
defaults select. -/
def ActionRow.ofAction (id : String) (a : Catalog.Action) : ActionRow where
  id := id
  type := a.type
  params := Params.seed a.params []

namespace Catalog.Param

mutual

/-- The active parameters of a list under given values: those that hold values, and those of the
selected variants in the places of the parameters that they belong to. -/
def active (m : Params) : List Param → List Param
  | [] => []
  | ⟨info, kind⟩ :: rest => activeOfKind m info kind ++ active m rest

/-- The active parameters that stand for one parameter. -/
def activeOfKind (m : Params) (info : ParamInfo) : ParamKind → List Param
  | .variant controller variants => activeOfSelected m (m.textOf controller) variants
  | kind => [⟨info, kind⟩]

/-- The active parameters of the first variant with the given discriminator. -/
def activeOfSelected (m : Params) (selected : Option String) : List Variant → List Param
  | [] => []
  | ⟨discriminator, params⟩ :: rest =>
    if selected = some discriminator then active m params else activeOfSelected m selected rest

end

end Catalog.Param

/-- The active parameters of an action under given values. These are the ones that are shown,
checked and saved; values of other names may be there, but play no part. -/
def Catalog.Action.active (a : Catalog.Action) (m : Params) : List Catalog.Param :=
  Catalog.Param.active m a.params

namespace Params

open Catalog

/-- Removes the parameters of a variant that the selected variant does not declare as well. -/
def dropVariant (selected : Option Variant) (m : Params) (variant : Variant) : Params :=
  let kept := (selected.map fun v => v.params.map (·.name)).getD []
  variant.params.foldl
    (fun m p => if kept.contains p.name then m else OrderedMap.erase m p.name) m

/-- Brings the values in line with the variant that a controller's text selects: the parameters of
the other variants go, and those of the selected one are added. A parameter that the selected
variant shares with another one keeps its value. Only the variants of this parameter are looked at,
not those of parameters within them. -/
def switchVariant (controllerText : Option String) (m : Params) (p : Param) : Params :=
  let selected := p.activeVariant? controllerText
  let others := p.kind.variants.filter fun v =>
    selected.map (·.discriminator) != some v.discriminator
  let m := others.foldl (dropVariant selected) m
  match selected with
  | some v => seed v.params m
  | none => m

/-- Edits one value. The value is written first, in the place that the name has or behind all
others; then each parameter at the top that the name controls is switched to the variant which the
text of the value selects. A name that controls nothing at the top, such as one within a variant, is
merely written, even if parameters further down depend on it. -/
def set (a : Action) (m : Params) (name : String) (value : EditValue) : Params :=
  let m : Params := OrderedMap.insert m name value
  (a.controlledBy name).foldl (switchVariant (m.textOf name)) m

end Params

/-- Edits one value of a row of an action, together with the variants that it controls. The id, the
type and what was retained of a stored action stay as they are. -/
def ActionRow.setParam (r : ActionRow) (a : Catalog.Action) (name : String) (value : EditValue) :
    ActionRow :=
  { r with params := r.params.set a name value }

end RuleEditor
