import RuleEditor.Catalog.Event
import RuleEditor.Json.Printer

/-!
# Parameters of actions

An action takes parameters of several kinds. A parameter of the kind `variant` holds no value of its
own: it names another parameter, its controller, and brings in the parameters of the variant whose
discriminator is the value of the controller. Variants may hold such parameters again, to any depth.

## Main definitions

* `Catalog.Param`, `Catalog.ParamKind`, `Catalog.Variant` — declarations of parameters.
* `Catalog.Param.activeVariant?` — the variant that a controller's value selects.
* `Catalog.Param.find?` — the first declaration of a name in a tree of parameters.
-/

namespace RuleEditor.Catalog

/-- One of the values that a parameter may be chosen from. The value is a text, also where the
parameter is a number: it is what the edit box holds. -/
structure Choice where
  /-- The value. -/
  value : String
  /-- The name to show. -/
  label : String
deriving DecidableEq, Repr, Inhabited

/-- What is declared of a parameter besides the values it takes. These members are the same for all
kinds. -/
structure ParamInfo where
  /-- The name under which actions hold the value. -/
  name : String
  /-- The name to show, if it is another one. -/
  label : Option String := none
  /-- How the value is to be entered. -/
  inputHint : Option String := none
  /-- The values to choose from; if there are none, the value is free. -/
  choices : List Choice := []
  /-- Whether an action needs a value. -/
  required : Bool := false
  /-- Whether the parameter is not to be shown. -/
  hidden : Bool := false
  /-- Whether the parameter is not to be edited. -/
  readonly : Bool := false
  /-- The value to begin with. -/
  default : Option Json := none

mutual

/-- The declaration of a parameter: its members, whatever it holds, and the kind of values that it
takes. Variants hold parameters again, so that declarations are trees. -/
structure Param extends ParamInfo where
  /-- What values the parameter takes. -/
  kind : ParamKind

/-- The kinds of parameters. All but the last say how a value is stored; a parameter of kind
`variant` has no value and stands for the parameters that it brings in. -/
inductive ParamKind where
  /-- A text. -/
  | string
  /-- A number. -/
  | number
  /-- An integer. -/
  | integer
  /-- A truth value. -/
  | boolean
  /-- A JSON object. -/
  | object
  /-- A list of texts. -/
  | stringArray
  /-- The parameters of the variant that the controller's value selects. -/
  | variant (controller : String) (variants : List Variant)

/-- A list of parameters that is brought in by one value of a controller. -/
structure Variant where
  /-- The value of the controller that selects the variant. -/
  discriminator : String
  /-- The parameters that it brings in. -/
  params : List Param

end

/-- The kind of texts, which is also what a kind that is not known is taken for. -/
instance : Inhabited ParamKind := ⟨.string⟩

/-- A text without a name. -/
instance : Inhabited Param := ⟨{ name := "", kind := .string }⟩

/-- A variant that brings in nothing. -/
instance : Inhabited Variant := ⟨⟨"", []⟩⟩

/-- The controller of a `variant` parameter that names none. -/
def defaultController : String := "provider"

namespace ParamKind

/-- Whether the kind is that of variants. -/
def isVariant : ParamKind → Bool
  | .variant _ _ => true
  | _ => false

/-- Whether the kind is that of lists of texts. -/
def isStringArray : ParamKind → Bool
  | .stringArray => true
  | _ => false

/-- The controller of a `variant` parameter. -/
def controller? : ParamKind → Option String
  | .variant controller _ => some controller
  | _ => none

/-- The variants of a `variant` parameter. -/
def variants : ParamKind → List Variant
  | .variant _ variants => variants
  | _ => []

/-- The name of a kind in records. -/
def name : ParamKind → String
  | .string => "string"
  | .number => "number"
  | .integer => "integer"
  | .boolean => "boolean"
  | .object => "object"
  | .stringArray => "array<string>"
  | .variant _ _ => "variant"

end ParamKind

namespace Param

/-- The name to show. -/
def displayLabel (p : Param) : String := p.label.getD p.name

/-- Whether the value is one of the choices. A list of texts is not, whatever its choices. -/
def isSingleSelect (p : Param) : Bool := !p.choices.isEmpty && !p.kind.isStringArray

/-- The first variant whose discriminator is the text of the controller's value. The texts are
compared as they are, with all blanks; without a controller's text no variant is active. -/
def activeVariant? (p : Param) (controllerText : Option String) : Option Variant :=
  controllerText.bind fun text => p.kind.variants.find? (·.discriminator = text)

mutual

/-- The first declaration of a name in a parameter and, depth first, in its variants. The same name
may be declared in several variants, of which this finds the first, be it active or not. -/
def find? (name : String) : Param → Option Param
  | ⟨info, kind⟩ => if info.name = name then some ⟨info, kind⟩ else findInKind? name kind

/-- The first declaration of a name in the variants of a kind; only the kind `variant` has any. -/
def findInKind? (name : String) : ParamKind → Option Param
  | .variant _ variants => findInVariants? name variants
  | _ => none

/-- The first declaration of a name in a list of variants. -/
def findInVariants? (name : String) : List Variant → Option Param
  | [] => none
  | ⟨_, params⟩ :: rest => (findInList? name params).or (findInVariants? name rest)

/-- The first declaration of a name in a list of parameters. -/
def findInList? (name : String) : List Param → Option Param
  | [] => none
  | p :: rest => (find? name p).or (findInList? name rest)

end

end Param

end RuleEditor.Catalog
