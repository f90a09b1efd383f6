import RuleEditor.Form.Basic
import RuleEditor.Proofs.Expression.Flatten
import RuleEditor.Proofs.Form.ActionRow.Stored
import RuleEditor.Proofs.Form.ConditionRow

/-!
# Reopening rules

A rule that is opened as a form and saved comes back if it has the form in which rules are saved and
the parameters of its actions are settled. Rules that were saved have that form, so that a rule that
is saved twice is the same both times exactly if the parameters are settled after the first time.
They need not be: a default comes back in place of an empty optional value that was left out, and an
object that was entered as a text without members is dropped when it is saved again.

## Main definitions

* `Rule.IsSaved` — the form in which rules are saved.
* `Rule.IsCanonical` — rules that come back from their forms.

## Main results

* `Form.toRule_ofRule_of_isCanonical` — a canonical rule comes back from its form.
* `Form.toRule_ofRule_toRule_iff` — what makes a saved rule the same when it is saved again.
* `Form.toRule_ofRule_toRule_ne` — a rule that changes each time.
-/

set_option relaxedAutoImplicit false
set_option autoImplicit false

namespace RuleEditor

/-- The form in which rules are saved: texts are trimmed, the condition is one group of canonical
comparisons, and there are actions, as far as there are any to choose from. Every rule that a form
with conditions and actions is saved as has this form (`Form.isSaved_toRule`), and so has a rule
that was opened and saved. It says nothing about the values of parameters. -/
structure Rule.IsSaved (catalog : Catalog) (r : Rule) : Prop where
  /-- The name is trimmed. -/
  name : Text.trim r.name = r.name
  /-- A description is trimmed and not empty. -/
  description : ∀ s, r.description = some s → Text.trim s = s ∧ s ≠ ""
  /-- The type of the event is trimmed. -/
  event : Text.trim r.event = r.event
  /-- The condition is a single group of canonical comparisons, of which there is one at least. -/
  expression : ∃ aggregator conditions, r.expression = .flat aggregator conditions ∧
    conditions ≠ [] ∧ ∀ c ∈ conditions, c.IsCanonical
  /-- There is an action, unless the catalog has none. -/
  actions : r.actions ≠ [] ∨ catalog.actions = []
  /-- The types of actions are trimmed. -/
  type : ∀ a ∈ r.actions, Text.trim a.type = a.type
  /-- No action repeats a parameter. -/
  distinct : ∀ a ∈ r.actions, OrderedMap.Distinct a.params

/-- A rule that comes back from its form: it has the form in which rules are saved, and the
parameters of each action of a known type are canonical and declared once. Actions of types that the
catalog does not know may have any parameters, since these are kept as they are.

The conditions are on the stored rule and the catalog alone. That the parameters of an action are
canonical means that each of them is active, keeps its value when it is opened and saved, and that
no default comes in beside them (`Catalog.Action.IsCanonical`). -/
structure Rule.IsCanonical (catalog : Catalog) (r : Rule) : Prop extends r.IsSaved catalog where
  /-- An action of a known type declares no name twice. -/
  names : ∀ a ∈ r.actions, ∀ d, catalog.action? a.type = some d →
    ((Catalog.Param.declared d.params).map fun p => p.name).Nodup
  /-- The parameters of an action of a known type are canonical. -/
  params : ∀ a ∈ r.actions, ∀ d, catalog.action? a.type = some d → d.IsCanonical a.params

/-- A priority is read back from its text. -/
lemma Priority.ofText_ofInt (n : Int64) :
    Priority.ofText (String.ofList (Text.ofInt n.toInt)) = n := by
  simp only [ofText, String.toList_ofList, Text.trimChars_ofInt, Text.int64?_ofInt]

namespace Form

/-! ## Rows of actions -/

/-- The rows of stored actions are saved as these actions exactly if each row is. -/
lemma forall₂_storedRows_iff (catalog : Catalog) {actions : List StoredAction} (next : Nat)
    (htype : ∀ a ∈ actions, Text.trim a.type = a.type)
    (hd : ∀ a ∈ actions, OrderedMap.Distinct a.params) :
    List.Forall₂ StoredAction.EqUpToOrder
        ((storedRows catalog actions next).map (ActionRow.toStored catalog)) actions ↔
      ∀ a ∈ actions, ∀ d, catalog.action? a.type = some d → d.Settled a.params := by
  induction actions generalizing next with
  | nil => simp [storedRows]
  | cons a rest ih =>
    rw [storedRows, List.map_cons, List.forall₂_cons,
      ActionRow.toStored_ofStored_iff (htype a List.mem_cons_self) (hd a List.mem_cons_self),
      ih (next + 1) (fun b hb => htype b (List.mem_cons_of_mem _ hb))
        (fun b hb => hd b (List.mem_cons_of_mem _ hb)), List.forall_mem_cons]

/-- Without actions to choose from there are no rows but those of stored actions. -/
lemma actionRows_eq_storedRows {catalog : Catalog} {actions : List StoredAction} (next : Nat)
    (h : actions ≠ [] ∨ catalog.actions = []) :
    actionRows catalog next actions = storedRows catalog actions next := by
  cases actions with
  | nil =>
    have hnone : catalog.actions = [] := h.resolve_left fun hne => hne rfl
    simp [actionRows, defaultActions, hnone, storedRows]
  | cons a rest => rfl

/-! ## Rules -/

/-- Where there are conditions there is a row for each of them, and no other. -/
lemma conditionRows_eq_map {conditions : List Condition} (catalog : Catalog) (config : Config)
    (hne : conditions ≠ []) :
    conditionRows catalog config conditions = conditions.map ConditionRow.ofCondition := by
  cases conditions with
  | nil => exact absurd rfl hne
  | cons c rest => rfl

/-- Canonical conditions come back from their rows. -/
lemma map_toCondition_conditionRows {catalog : Catalog} {config : Config}
    {conditions : List Condition} (hne : conditions ≠ []) (h : ∀ c ∈ conditions, c.IsCanonical) :
    (conditionRows catalog config conditions).map ConditionRow.toCondition = conditions := by
  rw [conditionRows_eq_map catalog config hne, List.map_map, List.map_congr_left (g := id),
    List.map_id]
  intro c hc
  exact ConditionRow.toCondition_ofCondition (h c hc)

/-- **What makes a rule come back.** A rule in the form in which rules are saved comes back from its
form, the order of parameters aside, exactly if the parameters of its actions are settled. All else
of such a rule comes back anyway: the texts are trimmed already, and canonical comparisons survive
their rows. -/
theorem toRule_ofRule_iff {catalog : Catalog} {config : Config} {next : Nat} {r : Rule}
    (h : r.IsSaved catalog) :
    ((ofRule catalog config next r).toRule catalog).EqUpToOrder r ↔
      ∀ a ∈ r.actions, ∀ d, catalog.action? a.type = some d → d.Settled a.params := by
  have hrows := forall₂_storedRows_iff catalog next h.type h.distinct
  have hactions : ((ofRule catalog config next r).toRule catalog).actions =
      (storedRows catalog r.actions next).map (ActionRow.toStored catalog) := by
    rw [toRule, ofRule, actionRows_eq_storedRows next h.actions]
  constructor
  · intro heq
    rw [← hrows, ← hactions]
    exact heq.actions
  · intro hsettled
    refine ⟨h.name, ?_, h.event, ?_, rfl, ?_, ?_⟩
    · simp only [toRule, ofRule]
      cases hdescription : r.description with
      | none => rfl
      | some s =>
        obtain ⟨htrim, hne⟩ := h.description s hdescription
        exact Text.nonBlank?_of_trim_eq htrim hne
    · simp only [toRule, ofRule, Priority.ofText_ofInt]
    · obtain ⟨aggregator, conditions, hexpression, hne, hcanonical⟩ := h.expression
      simp only [toRule, ofRule, hexpression, Expression.flatten_flat, Expression.aggregator_flat,
        map_toCondition_conditionRows hne hcanonical]
    · rw [hactions]
      exact hrows.2 hsettled

/-- **A canonical rule comes back from its form**, the order of parameters aside. This holds under
all settings and whatever number the ids of rows start at; of the catalog nothing is assumed but
what makes the rule canonical.

**Proof sketch.** Its conditions come back row by row, and its actions because canonical parameters
are settled where no name is declared twice (`Catalog.Action.settled_iff_isCanonical`). -/
theorem toRule_ofRule_of_isCanonical {catalog : Catalog} {config : Config} {next : Nat} {r : Rule}
    (h : r.IsCanonical catalog) :
    ((ofRule catalog config next r).toRule catalog).EqUpToOrder r := by
  rw [toRule_ofRule_iff h.toIsSaved]
  intro a ha d hd
  exact (Catalog.Action.settled_iff_isCanonical (h.names a ha d hd)).2 (h.params a ha d hd)

/-- A required choice between two channels. -/
def channelParam : Catalog.Param :=
  ⟨{ name := "channel", choices := [⟨"mail", "Mail"⟩, ⟨"sms", "Text"⟩], required := true }, .string⟩

/-- A required list of addresses. -/
def addressParam : Catalog.Param := ⟨{ name := "to", required := true }, .stringArray⟩

/-- An optional subject. -/
def subjectParam : Catalog.Param := ⟨{ name := "subject" }, .string⟩

/-- An action whose parameters depend on a channel: mail takes a list of addresses and perhaps a
subject, and the other channel takes nothing. -/
def notifyAction : Catalog.Action where
  type := "notify"
  params := [channelParam, ⟨{ name := "settings" }, .variant "channel"
    [⟨"mail", [addressParam, subjectParam]⟩, ⟨"sms", []⟩]⟩]

/-- Stored parameters of that action. -/
def notifyParams : Json.Object := [("to", .arr [.str "a", .str "b"]), ("channel", .str "mail")]

/-- A rule with an action of that type and one of an unknown type. -/
def notifyRule : Rule where
  name := "r"
  event := "e"
  priority := -3
  expression := .flat .or
    [{ op := ">", path := "$.a", right := some (.literal (.ofInt64 400)) },
      { op := "==", path := "$.a", right := some (.path "$.b") }]
  actions :=
    [{ type := "notify", params := notifyParams }, { type := "x", params := [("y", .null)] }]

/-- The parameters of the action are canonical: two addresses for the selected channel, and a
subject that is missing. -/
lemma isCanonical_notifyParams : notifyAction.IsCanonical notifyParams := by
  have hactive : notifyAction.active (notifyAction.opened notifyParams) =
      [channelParam, addressParam, subjectParam] := rfl
  refine ⟨by decide, fun p hp v hv => ?_, fun p hp hnone => ?_⟩
  · obtain rfl | rfl | rfl : p = channelParam ∨ p = addressParam ∨ p = subjectParam := by
      simpa [hactive] using hp
    · obtain rfl : Json.str "mail" = v := Option.some.inj hv
      exact .inl ⟨by simp [channelParam], by simp [channelParam], rfl, by decide, rfl⟩
    · obtain rfl : Json.arr [.str "a", .str "b"] = v := Option.some.inj hv
      exact .inl ⟨rfl, by simp, ["a", "b"], rfl, by unfold CommaList.IsItem; decide⟩
    · exact absurd hv (by simp [notifyParams, subjectParam, OrderedMap.get?])
  · obtain rfl | rfl | rfl : p = channelParam ∨ p = addressParam ∨ p = subjectParam := by
      simpa [hactive] using hp
    · exact absurd hnone (by simp [notifyParams, channelParam, OrderedMap.get?])
    · exact absurd hnone (by simp [notifyParams, addressParam, OrderedMap.get?])
    · exact ⟨rfl, Catalog.Action.storedForm?_opened (by decide) hp hnone rfl⟩

/-- A canonical rule comes back from its form. -/
theorem toRule_ofRule_notifyRule :
    notifyRule.IsCanonical { actions := [notifyAction] } ∧
      ((ofRule { actions := [notifyAction] } {} 1 notifyRule).toRule
        { actions := [notifyAction] }).EqUpToOrder notifyRule := by
  have hknown : ∀ a ∈ notifyRule.actions, ∀ d,
      ({ actions := [notifyAction] } : Catalog).action? a.type = some d →
        d = notifyAction ∧ a.params = notifyParams := by
    intro a ha d hd
    obtain rfl | rfl : a = ⟨"notify", notifyParams⟩ ∨ a = ⟨"x", [("y", .null)]⟩ := by
      simpa [notifyRule] using ha
    · exact ⟨(Option.some.inj hd).symm, rfl⟩
    · exact absurd hd (by simp [Catalog.action?, notifyAction])
  have hcanonical : notifyRule.IsCanonical { actions := [notifyAction] } := by
    refine ⟨⟨rfl, by simp [notifyRule], rfl, ⟨.or, _, rfl, by simp, ?_⟩, by simp [notifyRule],
      by decide, by unfold OrderedMap.Distinct; decide⟩, ?_, ?_⟩
    · intro c hc
      obtain rfl | rfl := List.mem_pair.1 hc
      · exact ⟨rfl, _, rfl, Json.Number.isCanonical_ofInt64 400⟩
      · exact ⟨rfl, _, rfl, rfl, by decide⟩
    · intro a ha d hd
      rw [(hknown a ha d hd).1]
      decide
    · intro a ha d hd
      rw [(hknown a ha d hd).1, (hknown a ha d hd).2]
      exact isCanonical_notifyParams
  exact ⟨hcanonical, toRule_ofRule_of_isCanonical hcanonical⟩

/-! ## Saving twice -/

/-- A rule that is saved from a form with conditions and actions has the form in which rules are
saved. -/
lemma isSaved_toRule {catalog : Catalog} {f : Form} (hconditions : f.conditions ≠ [])
    (hactions : f.actions ≠ [] ∨ catalog.actions = []) : (f.toRule catalog).IsSaved catalog where
  name := Text.trim_trim f.name
  description _ hs := Text.isTidy_of_nonBlank? hs
  event := Text.trim_trim f.event
  expression := by
    refine ⟨f.aggregator, f.conditions.map ConditionRow.toCondition, rfl, by simpa, ?_⟩
    intro c hc
    obtain ⟨row, -, rfl⟩ := List.mem_map.1 hc
    exact row.isCanonical_toCondition
  actions := by simpa [toRule] using hactions
  type a ha := by
    obtain ⟨row, -, rfl⟩ := List.mem_map.1 ha
    rw [ActionRow.type_toStored, Text.trim_trim]
  distinct a ha := by
    obtain ⟨row, -, rfl⟩ := List.mem_map.1 ha
    exact row.distinct_params_toStored catalog

/-- The form of a rule has a condition. -/
lemma conditions_ofRule_ne_nil (catalog : Catalog) (config : Config) (next : Nat) (r : Rule) :
    (ofRule catalog config next r).conditions ≠ [] := by
  simp only [ofRule]
  unfold conditionRows
  split
  · exact List.cons_ne_nil _ _
  · next hne => simpa using hne

/-- The form of a rule has an action, unless the catalog has none. -/
lemma actions_ofRule_ne_nil (catalog : Catalog) (config : Config) (next : Nat) (r : Rule) :
    (ofRule catalog config next r).actions ≠ [] ∨ catalog.actions = [] := by
  simp only [ofRule]
  cases hactions : r.actions with
  | nil => cases hcatalog : catalog.actions <;> simp [actionRows, defaultActions, hcatalog]
  | cons a rest => simp [actionRows, storedRows]

/-- **What makes a rule the same when it is saved again.** Any rule that was opened and saved comes
back when it is opened and saved once more, the order of parameters aside, exactly if the parameters
that were saved the first time are settled. So the first saving brings a rule into the form in which
rules are saved, and only the parameters may still change: an empty optional value that was left out
comes back as its default. -/
theorem toRule_ofRule_toRule_iff (catalog : Catalog) (config : Config) (next again : Nat)
    (r : Rule) :
    let once := (ofRule catalog config next r).toRule catalog
    ((ofRule catalog config again once).toRule catalog).EqUpToOrder once ↔
      ∀ a ∈ once.actions, ∀ d, catalog.action? a.type = some d → d.Settled a.params :=
  toRule_ofRule_iff (isSaved_toRule (conditions_ofRule_ne_nil catalog config next r)
    (actions_ofRule_ne_nil catalog config next r))

/-- The actions of a catalog with one action, which takes an optional note with a default. -/
def noteSection : Json :=
  .arr [.obj [("type", .str "notify"), ("params", .arr [.obj [("name", .str "note"),
    ("default", .str "x")]])]]

/-- A rule with one action, which has an empty note. -/
def ruleWithEmptyNote : Rule where
  name := "r"
  event := "e"
  expression := .flat .and [{ op := "==", path := "$.a", right := some (.literal (.str "1")) }]
  actions := [{ type := "notify", params := [("note", .str "")] }]

/-- A rule that is saved once without its empty note and, when it is saved again, with the default
in its place. -/
theorem toRule_ofRule_toRule_ne :
    let catalog := Catalog.ofSections .null .null noteSection
    let once := (ofRule catalog {} 1 ruleWithEmptyNote).toRule catalog
    let twice := (ofRule catalog {} 2 once).toRule catalog
    once.actions.map StoredAction.params = [[]] ∧
      twice.actions.map StoredAction.params = [[("note", .str "x")]] ∧
      ¬twice.EqUpToOrder once := by
  refine ⟨rfl, rfl, fun h => ?_⟩
  cases h.actions with
  | cons hfirst _ => exact absurd hfirst.params.length_eq (by decide)

end Form

end RuleEditor
