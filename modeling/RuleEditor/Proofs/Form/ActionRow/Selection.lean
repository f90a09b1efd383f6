import RuleEditor.Proofs.Form.ActionRow.Active
import RuleEditor.Proofs.Form.ActionRow.Stored
import RuleEditor.Proofs.Form.Validation

/-!
# Saved actions and their variants

Which variant of a parameter is saved is decided by the text of its controller as it is edited. What
is saved of the controller is that text trimmed, or the value of the kind that it spells out, and
this may be the discriminator of another variant than the edited text. A saved action holds what is
required by the variant that its own controller selects exactly as far as the two agree.

## Main definitions

* `Catalog.Variant.IsMet` — all that a variant requires is there.

## Main results

* `ActionRow.isMet_of_selected` — what the selected variant requires is saved.
* `ActionRow.isMet_toStored_iff` — when a saved action holds what its own variant requires.
-/

set_option relaxedAutoImplicit false
set_option autoImplicit false

namespace RuleEditor

/-- Saved parameters hold all those that a variant declares and requires, other than those of
variants, which hold no values. It is enough that there is a value; a required parameter may be
saved with the empty value of its kind. -/
def Catalog.Variant.IsMet (v : Catalog.Variant) (saved : Json.Object) : Prop :=
  ∀ q ∈ v.params, q.kind.isVariant = false → q.required = true →
    OrderedMap.contains saved q.name = true

namespace ActionRow

open Catalog

variable {d : Action} {m : Params} {p : Param} {c : String} {v : Variant}

/-- A required parameter is saved if it is active, whatever its value. -/
lemma contains_storedKnown_of_required {q : Param} (hq : q ∈ d.active m)
    (hrequired : q.required = true) : OrderedMap.contains (storedKnown d m) q.name = true := by
  rw [OrderedMap.contains, Action.get?_storedKnown, Option.isSome_iff_ne_none]
  intro hnone
  have hunsaved := Param.savedByLast?_eq_none_iff.1 hnone q hq rfl
  rw [(Param.saved?_eq_none_iff.1 hunsaved).1] at hrequired
  exact absurd hrequired (by simp)

/-- What is saved has an active declaration. -/
lemma exists_mem_active_of_contains_storedKnown {name : String}
    (h : OrderedMap.contains (storedKnown d m) name = true) : ∃ s ∈ d.active m, s.name = name := by
  rw [OrderedMap.contains, Action.get?_storedKnown] at h
  obtain ⟨w, hw⟩ := Option.isSome_iff_exists.1 h
  obtain ⟨s, hs, hname, -⟩ := Param.exists_of_savedByLast? hw
  exact ⟨s, hs, hname⟩

/-- What the variant requires that the edited text selects is saved, whatever values the row has or
lacks: the parameters of that variant are active, and a required one is saved with its empty value
if there is no other. -/
theorem isMet_of_selected (hp : p ∈ d.params) (hc : p.kind.controller? = some c)
    (hv : p.activeVariant? (m.textOf c) = some v) : v.IsMet (storedKnown d m) := by
  intro q hq hvalue hrequired
  have hactive : q ∈ Param.active m v.params := Param.mem_active_of_mem hq hvalue m
  exact contains_storedKnown_of_required (Param.mem_active_of_selected hp hc hv hactive) hrequired

/-- **When a saved action holds what its own variant requires.** Let the saved value of a controller
select a variant. If the edited text of the controller is the discriminator of that variant, then
all that the variant requires is saved. Where no name is declared twice, this is so only then,
unless the variant requires nothing.

**Proof sketch.** A variant that the edited text selects is active, and what is active and required
is saved (`isMet_of_selected`). If something that the variant requires is saved, a declaration of
that name is active; where no name is declared twice, this takes the variant to be selected by the
edited text (`Param.activeVariant?_of_mem_active`). -/
theorem isMet_toStored_iff {catalog : Catalog} {r : ActionRow}
    (hfound : catalog.action? (Text.trim r.type) = some d) (hp : p ∈ d.params)
    (hc : p.kind.controller? = some c)
    (hv : p.activeVariant?
      ((OrderedMap.get? (r.toStored catalog).params c).map Json.editText) = some v) :
    (r.params.textOf c = some v.discriminator → v.IsMet (r.toStored catalog).params) ∧
      (((Param.declared d.params).map fun q => q.name).Nodup →
        (v.IsMet (r.toStored catalog).params ↔ r.params.textOf c = some v.discriminator ∨
          ∀ q ∈ v.params, q.kind.isVariant = false → q.required = false)) := by
  have hparams : (r.toStored catalog).params = storedKnown d r.params := by
    simp only [toStored, hfound]
  obtain ⟨hvariants, htext⟩ := Param.mem_variants_of_activeVariant? hv
  rw [hparams] at htext ⊢
  have hselected : r.params.textOf c = some v.discriminator →
      v.IsMet (storedKnown d r.params) := by
    intro hedited
    refine isMet_of_selected hp hc ?_
    rwa [hparams, htext, ← hedited] at hv
  refine ⟨hselected, fun hnames => ⟨fun hmet => ?_, ?_⟩⟩
  · by_contra hneither
    obtain ⟨hedited, hrequires⟩ := not_or.1 hneither
    refine hrequires fun q hq hvalue => ?_
    by_contra hrequired
    -- a required parameter is saved, so that it is active
    obtain ⟨s, hs, hname⟩ := exists_mem_active_of_contains_storedKnown
      (hmet q hq hvalue (Bool.eq_true_of_not_eq_false hrequired))
    have hactive := Param.activeVariant?_of_mem_active hnames hp hc hvariants
      (Params.mem_declared_of_mem hq) hs hname
    exact hedited (Param.mem_variants_of_activeVariant? hactive).2
  · rintro (hedited | hrequires)
    · exact hselected hedited
    · intro q hq hvalue hrequired
      rw [hrequires q hq hvalue] at hrequired
      exact absurd hrequired Bool.false_ne_true

/-- The actions of a catalog with one action, which requires a channel of the provider `slack`. -/
def providerSection : Json :=
  .arr [.obj [("type", .str "notify"), ("params", .arr [.obj [("name", .str "provider")],
    .obj [("name", .str "settings"), ("variants", .arr [.obj [("value", .str "slack"),
      ("params", .arr [.obj [("name", .str "channel"), ("required", .bool true)]])]])]])]]

/-- The variant of the provider `slack`. -/
def slackVariant : Variant :=
  ⟨"slack", [{ name := "channel", required := true, kind := .string }]⟩

/-- The parameter of that variant. -/
def settingsParam : Param := { name := "settings", kind := .variant "provider" [slackVariant] }

/-- The action of that catalog. -/
def providerAction : Action where
  type := "notify"
  params := [{ name := "provider", kind := .string }, settingsParam]

/-- A row whose provider is edited as the discriminator of the variant. -/
def slackRow : ActionRow where
  id := "action-1"
  type := " notify"
  params := [("provider", .text "slack")]

/-- That row saves the channel, although it has no value for it. -/
theorem isMet_toStored_slackRow :
    let catalog := Catalog.ofSections .null .null providerSection
    catalog.action? (Text.trim slackRow.type) = some providerAction ∧
      settingsParam ∈ providerAction.params ∧
      slackRow.params.textOf "provider" = some slackVariant.discriminator ∧
      ((Param.declared providerAction.params).map fun q => q.name).Nodup ∧
      slackVariant.IsMet (slackRow.toStored catalog).params := by
  intro catalog
  have hfound : catalog.action? (Text.trim slackRow.type) = some providerAction := by rfl
  have hp : settingsParam ∈ providerAction.params := List.mem_cons_of_mem _ List.mem_cons_self
  have hv : settingsParam.activeVariant? ((OrderedMap.get? (slackRow.toStored catalog).params
      "provider").map Json.editText) = some slackVariant := by rfl
  exact ⟨hfound, hp, rfl, by decide, (isMet_toStored_iff hfound hp rfl hv).1 rfl⟩

/-- A form whose provider is edited with a space in front. -/
def spacedProvider : Form where
  name := "r"
  event := "e"
  conditions := [{ path := "$.a", operator := "==", value := "1" }]
  actions := [{ id := "action-1", type := "notify",
                params := [("provider", .text " slack"), ("channel", .text "#ops")] }]

/-- That form is accepted, and the provider is saved without the space, so that the saved action
selects the variant; but the edited text did not, and the channel is lost. -/
theorem not_isMet_toStored_spacedProvider :
    let catalog := Catalog.ofSections .null .null providerSection
    let saved := spacedProvider.toRule catalog
    spacedProvider.compile catalog = .ok saved ∧
      catalog.action? "notify" = some providerAction ∧ settingsParam ∈ providerAction.params ∧
      saved.actions.map StoredAction.params = [[("provider", .str "slack")]] ∧
      settingsParam.activeVariant? (some (Json.str "slack").editText) = some slackVariant ∧
      ¬slackVariant.IsMet [("provider", .str "slack")] := by
  refine ⟨rfl, rfl, List.mem_cons_of_mem _ List.mem_cons_self, rfl, rfl, fun hmet => ?_⟩
  exact absurd (hmet _ List.mem_cons_self rfl rfl) (by decide)

end ActionRow

end RuleEditor
