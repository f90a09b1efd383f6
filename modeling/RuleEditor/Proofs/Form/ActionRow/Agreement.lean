import RuleEditor.Form.Validation
import RuleEditor.Proofs.Form.ActionRow.Editing

/-!
# What saving and checking look at

Of the values of a row, saving it and checking it look at those of the active parameters and at
those of the controllers that tell what is active. Rows of one type that agree on these values are
saved as the same action, and a form has the same issues with either of them. Their ids, what they
retain, the order of their values, and values under any other name do not matter.

## Main definitions

* `Catalog.Action.Observes` — the value of a name is looked at.

## Main results

* `Catalog.Action.exists_mem_declared_of_observes` — where the names that are looked at come from.
* `ActionRow.toStored_eq_and_issues_eq` — rows that agree on what is looked at are alike.
-/

set_option relaxedAutoImplicit false
set_option autoImplicit false

namespace RuleEditor

open Catalog

namespace Catalog.Action

/-- The value of a name is looked at: it is the name of an active parameter, or it is looked at to
tell which parameters are active. A controller may be looked at without being active itself, if it
is declared in a variant that is not selected or not at all. -/
def Observes (a : Action) (m : Params) (name : String) : Prop :=
  (∃ p ∈ a.active m, p.name = name) ∨ Param.Consults m a.params name

/-- A name that is looked at is declared, or it is the controller of a parameter that is. Values of
all other names, such as those left over from another type of action, play no part. -/
theorem exists_mem_declared_of_observes {a : Action} {m : Params} {name : String}
    (h : a.Observes m name) :
    ∃ p ∈ Param.declared a.params, p.name = name ∨ p.kind.controller? = some name := by
  rcases h with ⟨p, hp, hname⟩ | hconsults
  · exact ⟨p, Param.mem_declared_of_mem_active m p a.params hp, .inl hname⟩
  · obtain ⟨p, hp, hc⟩ := Param.exists_mem_declared_of_consults hconsults
    exact ⟨p, hp, .inr hc⟩

end Catalog.Action

/-! ## Values that agree -/

section Agreement

variable {a : Action} {m m' : Params}
  (h : ∀ name, a.Observes m name → OrderedMap.get? m' name = OrderedMap.get? m name)

include h

/-- The same parameters are active under values that agree. -/
lemma Catalog.Action.active_eq_of_agree : a.active m' = a.active m :=
  Param.active_congr fun c hc => by rw [Params.textOf, Params.textOf, h c (.inr hc)]

/-- Active parameters have the same values. -/
lemma Catalog.Action.get?_eq_of_mem_active {p : Param} (hp : p ∈ a.active m) :
    OrderedMap.get? m' p.name = OrderedMap.get? m p.name :=
  h p.name (.inl ⟨p, hp, rfl⟩)

/-- Values that agree are stored alike. -/
lemma ActionRow.storedKnown_eq_of_agree : storedKnown a m' = storedKnown a m := by
  have hstored : ∀ p ∈ a.active m, (storedParam? m' p).map (p.name, ·) =
      (storedParam? m p).map (p.name, ·) := by
    intro p hp
    rw [storedParam?, storedParam?, Action.get?_eq_of_mem_active h hp]
  rw [storedKnown, storedKnown, Action.active_eq_of_agree h, List.filterMap_congr hstored]

end Agreement

/-! ## Rows that agree -/

namespace ActionRow

section Rows

variable {catalog : Catalog} {r r' : ActionRow} {d : Action}
  (hfound : catalog.action? (Text.trim r.type) = some d)
  (htype : Text.trim r'.type = Text.trim r.type)
  (h : ∀ name, d.Observes r.params name →
    OrderedMap.get? r'.params name = OrderedMap.get? r.params name)

include hfound htype h

/-- Rows that agree are saved as the same action. -/
lemma toStored_eq_of_agree : r'.toStored catalog = r.toStored catalog := by
  rw [toStored, toStored, htype]
  simp only [hfound, storedKnown_eq_of_agree h]

/-- Rows that agree have the same issues, whatever their number. -/
lemma issues_eq_of_agree (row : Nat) : r'.issues catalog row = r.issues catalog row := by
  have hissue : ∀ p ∈ d.active r.params,
      (if p.required && p.isMissing (OrderedMap.get? r'.params p.name) then
        some (Issue.param row d.label p.displayLabel) else none) =
      if p.required && p.isMissing (OrderedMap.get? r.params p.name) then
        some (Issue.param row d.label p.displayLabel) else none := by
    intro p hp
    rw [Action.get?_eq_of_mem_active h hp]
  rw [issues, issues, htype]
  simp only [hfound, Action.active_eq_of_agree h]
  exact List.filterMap_congr hissue

end Rows

/-- A row among others may be replaced by one that has the same issues. -/
lemma issuesOfRows_replace {α : Type} {issues : α → Nat → List Issue} {r r' : α}
    (h : ∀ row, issues r' row = issues r row) (before after : List α) (row : Nat) :
    issuesOfRows issues (before ++ r' :: after) row =
      issuesOfRows issues (before ++ r :: after) row := by
  induction before generalizing row with
  | nil => simp only [List.nil_append, issuesOfRows, h]
  | cons first before ih => simp only [List.cons_append, issuesOfRows, ih]

/-- **Rows that agree on what is looked at are alike.** Let two rows have the same trimmed type,
which the catalog knows, and agree on the names that are looked at under the values of one of them.
Then they are saved as the same action, with its parameters in the same order, and two forms in
which they stand at one place have the same issues.

**Proof sketch.** The controllers tell the same variants at every level to be selected
(`Catalog.Param.active_congr`), so that the same parameters are active under the values of both
rows, and these have the same values. -/
theorem toStored_eq_and_issues_eq {catalog : Catalog} {r r' : ActionRow} {d : Action}
    (hfound : catalog.action? (Text.trim r.type) = some d)
    (htype : Text.trim r'.type = Text.trim r.type)
    (h : ∀ name, d.Observes r.params name →
      OrderedMap.get? r'.params name = OrderedMap.get? r.params name) :
    r'.toStored catalog = r.toStored catalog ∧
      ∀ (f : Form) (before after : List ActionRow),
        Form.issues catalog { f with actions := before ++ r' :: after } =
          Form.issues catalog { f with actions := before ++ r :: after } := by
  refine ⟨toStored_eq_of_agree hfound htype h, fun f before after => ?_⟩
  have hrows := issuesOfRows_replace (issues_eq_of_agree hfound htype h) before after 1
  have hempty : (before ++ r' :: after).isEmpty = (before ++ r :: after).isEmpty := by
    cases before <;> rfl
  simp only [Form.issues, hrows, hempty]

/-- Two rows of an action in layers that differ in all that is not looked at: one of them retains
stored values and has a color, which belongs to a variant that is not selected, and a value that is
not declared at all. -/
theorem toStored_eq_and_issues_eq_layeredAction :
    let catalog : Catalog := { actions := [layeredAction] }
    let r : ActionRow :=
      { id := "action-1"
        type := "notify"
        params := [("provider", .text "slack"), ("mode", .text "plain")] }
    let r' : ActionRow :=
      { id := "action-2"
        type := " notify"
        params := [("page", .flag true), ("mode", .text "plain"), ("color", .text "red"),
          ("provider", .text "slack")]
        impaired := true
        retained := some [("page", .bool true)] }
    catalog.action? (Text.trim r.type) = some layeredAction ∧
      Text.trim r'.type = Text.trim r.type ∧
      (∀ name, layeredAction.Observes r.params name →
        OrderedMap.get? r'.params name = OrderedMap.get? r.params name) ∧
      r'.toStored catalog = r.toStored catalog ∧
      ∀ (f : Form) (before after : List ActionRow),
        Form.issues catalog { f with actions := before ++ r' :: after } =
          Form.issues catalog { f with actions := before ++ r :: after } := by
  intro catalog r r'
  have hfound : catalog.action? (Text.trim r.type) = some layeredAction := by
    have htrim : Text.trim r.type = "notify" := by decide
    rw [htrim]
    rfl
  have htype : Text.trim r'.type = Text.trim r.type := by decide
  have hagree : ∀ name, layeredAction.Observes r.params name →
      OrderedMap.get? r'.params name = OrderedMap.get? r.params name := by
    have hactive : layeredAction.active r.params = [layeredAction.params[0], modeParams[0]] := by
      rfl
    have hdeclared : Param.declared layeredAction.params =
        [layeredAction.params[0], layeredAction.params[1], modeParams[0], modeParams[1],
          colorParam] := by rfl
    have hcontrollers : ∀ p ∈ Param.declared layeredAction.params, ∀ c,
        p.kind.controller? = some c → "provider" = c ∨ "mode" = c := by
      rw [hdeclared]
      simp [layeredAction, modeParams, colorParam, ParamKind.controller?]
    rintro name (⟨p, hp, rfl⟩ | hconsults)
    · rw [hactive] at hp
      rcases List.mem_pair.1 hp with rfl | rfl <;> rfl
    · obtain ⟨p, hp, hc⟩ := Param.exists_mem_declared_of_consults hconsults
      rcases hcontrollers p hp name hc with rfl | rfl <;> rfl
  exact ⟨hfound, htype, hagree, toStored_eq_and_issues_eq hfound htype hagree⟩

end ActionRow

end RuleEditor
