import Mathlib.Data.List.Induction
import RuleEditor.Proofs.Form.ActionRow.Filling

/-!
# Rows while they are edited

An edit of a controller at the top brings the values in line with the variants that it selects, and
it touches nothing but their parameters; so a row in which nothing is missing stays one. An edit of
a controller within a variant is a mere edit of its value: the parameters that become active by it
are not added, and the row has to have values for them from before.

## Main definitions

* `ActionRow.IsUnedited` — the rows of new and of stored actions.
* `ActionRow.setParams` — a row after a list of edits.
* `Catalog.Action.IsNestedController` — a controller that is not at the top.

## Main results

* `Params.get?_switchVariant` — switching touches nothing but the parameters of the variants.
* `Params.fills_set` — an edit at the top keeps a row filled.
* `ActionRow.fills_setParams_iff` — when a row stays filled while it is edited.
-/

set_option relaxedAutoImplicit false
set_option autoImplicit false

namespace RuleEditor

open Catalog

/-- A name is the controller of a declared parameter, but not the name of a parameter at the top. An
edit of such a name writes its value and no more, since switching looks at the parameters at the top
alone. -/
def Catalog.Action.IsNestedController (a : Action) (name : String) : Prop :=
  (∀ p ∈ a.params, p.name ≠ name) ∧ ∃ p ∈ Param.declared a.params, p.kind.controller? = some name

namespace Params

variable {m m' : Params} {params : List Param} {name : String}

/-! ## What an edit touches -/

/-- Changes that all leave a name alone leave it alone one after the other. -/
lemma get?_foldl {α : Type} {f : Params → α → Params} {xs : List α}
    (h : ∀ x ∈ xs, ∀ m, OrderedMap.get? (f m x) name = OrderedMap.get? m name) (m : Params) :
    OrderedMap.get? (xs.foldl f m) name = OrderedMap.get? m name := by
  induction xs generalizing m with
  | nil => rfl
  | cons x rest ih =>
    rw [List.foldl_cons, ih (fun y hy => h y (List.mem_cons_of_mem _ hy)),
      h x List.mem_cons_self]

/-- Seeding leaves a name alone that none of the declarations has. -/
lemma Seeds.get?_of_ne {declarations : List Param} (h : Seeds declarations m m')
    (hname : ∀ p ∈ declarations, p.name ≠ name) :
    OrderedMap.get? m' name = OrderedMap.get? m name := by
  rcases h name with hsame | ⟨-, p, hp, heq, -⟩
  · exact hsame
  · exact absurd heq (hname p hp)

/-- Removing a variant touches nothing but its parameters. -/
lemma get?_dropVariant {v : Variant} (h : ∀ q ∈ v.params, q.name ≠ name)
    (selected : Option Variant) (m : Params) :
    OrderedMap.get? (dropVariant selected m v) name = OrderedMap.get? m name := by
  refine get?_foldl (fun q hq m => ?_) m
  split_ifs
  · rfl
  · exact OrderedMap.get?_erase_of_ne (h q hq) m

/-- **Switching touches nothing but what is declared in the variants.** A name that no variant of
the parameter declares, at any depth, has the same value before and after, or none both times. -/
theorem get?_switchVariant {p : Param} (h : ∀ q ∈ Param.declaredInKind p.kind, q.name ≠ name)
    (text : Option String) (m : Params) :
    OrderedMap.get? (switchVariant text m p) name = OrderedMap.get? m name := by
  have hin : ∀ v ∈ p.kind.variants, ∀ q ∈ Param.declared v.params, q.name ≠ name :=
    fun v hv q hq => h q (Param.mem_declared_of_mem_variants (List.mem_singleton_self p) hv hq).1
  have hdropped : OrderedMap.get? ((p.kind.variants.filter fun v =>
      (p.activeVariant? text).map (·.discriminator) != some v.discriminator).foldl
        (dropVariant (p.activeVariant? text)) m) name = OrderedMap.get? m name :=
    get?_foldl (fun v hv m => get?_dropVariant
      (fun q hq => hin v (List.mem_of_mem_filter hv) q (mem_declared_of_mem hq)) _ m) m
  unfold switchVariant
  dsimp only
  split
  · next v hv =>
    exact ((seeds_seed v.params _).get?_of_ne
      (hin v (Param.mem_variants_of_activeVariant? hv).1)).trans hdropped
  · exact hdropped

/-- Switching fills the variant that is selected. -/
lemma fills_switchVariant {p : Param} {text : Option String} {v : Variant}
    (h : Param.ControlledBySiblings v.params) (hv : p.activeVariant? text = some v) (m : Params) :
    Fills (switchVariant text m p) v.params := by
  unfold switchVariant
  dsimp only
  rw [hv]
  exact fills_seed (h.controlledWithin fun _ hname => hname) fun _ hname => .inr hname

/-- Where the controllers are siblings, values that are not declared do not matter. -/
lemma Fills.congr_of_declared (h : Fills m params) (hsiblings : Param.ControlledBySiblings params)
    (hsame : ∀ q ∈ Param.declared params, OrderedMap.get? m' q.name = OrderedMap.get? m q.name) :
    Fills m' params := by
  have hactive : ∀ q ∈ Param.active m params,
      OrderedMap.get? m' q.name = OrderedMap.get? m q.name :=
    fun q hq => hsame q (Param.mem_declared_of_mem_active m q params hq)
  refine h.congr (fun c hc => ?_) hactive
  obtain ⟨q, hq, rfl⟩ := Param.exists_mem_active_of_consults hsiblings hc
  exact hactive q hq

/-- Switching several parameters fills the variant that is selected of each of them. -/
lemma fills_foldl_switchVariant
    (hnames : ((Param.declared params).map fun p => p.name).Nodup) {text : Option String}
    {ps : List Param} (hsub : ∀ q ∈ ps, q ∈ params) (hnodup : ps.Nodup) {p : Param} (hp : p ∈ ps)
    {v : Variant} (hv : p.activeVariant? text = some v)
    (hsiblings : Param.ControlledBySiblings v.params) (m : Params) :
    Fills (ps.foldl (switchVariant text) m) v.params := by
  induction ps generalizing m with
  | nil => exact absurd hp List.not_mem_nil
  | cons q rest ih =>
    obtain ⟨hnot, hrest⟩ := List.nodup_cons.1 hnodup
    rw [List.foldl_cons]
    rcases List.mem_cons.1 hp with rfl | hp'
    · refine (fills_switchVariant hsiblings hv m).congr_of_declared hsiblings fun s hs => ?_
      -- the parameters that are switched later declare other names
      refine get?_foldl (fun p' hp' m => get?_switchVariant (fun q hq heq => ?_) text m) _
      have hin := (Param.mem_declared_of_mem_variants (hsub p List.mem_cons_self)
        (Param.mem_variants_of_activeVariant? hv).1 hs).1
      obtain rfl := Param.eq_of_mem_declaredInKind hnames (hsub p' (List.mem_cons_of_mem _ hp'))
        (hsub p List.mem_cons_self) hq hin heq
      exact hnot hp'
    · exact ih (fun s hs => hsub s (List.mem_cons_of_mem _ hs)) hrest hp' (switchVariant text m q)

/-! ## Edits -/

/-- An edit touches nothing but the name and what the variants that it controls declare. -/
lemma get?_set {a : Action} {other : String}
    (h : ∀ p ∈ a.controlledBy name, ∀ q ∈ Param.declaredInKind p.kind, q.name ≠ other)
    (m : Params) (value : EditValue) :
    OrderedMap.get? (m.set a name value) other =
      if name = other then some value else OrderedMap.get? m other := by
  rw [← OrderedMap.get?_insert]
  exact get?_foldl (fun p hp m => get?_switchVariant (h p hp) _ m) _

/-- An edit of a name that controls nothing at the top is a mere edit of its value. -/
lemma set_eq_insert {a : Action} (h : a.controlledBy name = []) (m : Params) (value : EditValue) :
    m.set a name value = OrderedMap.insert m name value := by
  simp only [set, h, List.foldl_nil]

/-- A value that was just written has its own text. -/
lemma textOf_insert (m : Params) (name : String) (value : EditValue) :
    Params.textOf (OrderedMap.insert m name value) name = some value.toText := by
  rw [textOf, OrderedMap.get?_insert, if_pos rfl, Option.map_some]

section TopLevel

variable {a : Action} (hnames : ((Param.declared a.params).map fun p => p.name).Nodup)

include hnames

/-- An edit touches nothing at the top but the value of the name. -/
lemma get?_set_of_mem {t : Param} (ht : t ∈ a.params) (m : Params) (value : EditValue) :
    OrderedMap.get? (m.set a name value) t.name =
      if name = t.name then some value else OrderedMap.get? m t.name :=
  get?_set (fun _ hp _ hq heq => Param.name_ne_of_mem_declaredInKind hnames ht
    (List.mem_of_mem_filter hp) hq heq.symm) m value

/-- An edit of a controller fills the variant that it selects. -/
lemma fills_set_of_controller {p : Param} {v : Variant} (hp : p ∈ a.params)
    (hc : p.kind.controller? = some name) {value : EditValue}
    (hv : p.activeVariant? (some value.toText) = some v)
    (hsiblings : Param.ControlledBySiblings v.params) (m : Params) :
    Fills (m.set a name value) v.params := by
  rw [← textOf_insert m name value] at hv
  exact fills_foldl_switchVariant hnames (fun _ ht => List.mem_of_mem_filter ht)
    ((Param.nodup_of_nodup_names hnames).filter _) (List.mem_filter.2 ⟨hp, by simpa using hc⟩)
    hv hsiblings _

/-- An edit at the top of another name than the controller leaves a variant filled. -/
lemma Fills.set_of_ne {s p : Param} {c : String} {v : Variant} (h : Fills m v.params)
    (hs : s ∈ a.params) (hp : p ∈ a.params) (hc : p.kind.controller? = some c) (hne : c ≠ s.name)
    (hv : v ∈ p.kind.variants) (hsiblings : Param.ControlledBySiblings v.params)
    (value : EditValue) : Fills (m.set a s.name value) v.params := by
  refine h.congr_of_declared hsiblings fun r hr => ?_
  -- what the variant declares belongs neither to the top nor to a controlled parameter
  have hin := (Param.mem_declared_of_mem_variants hp hv hr).1
  refine (get?_set (fun p' hp' q' hq' heq => ?_) m value).trans (if_neg ?_)
  · obtain ⟨hmem, hcontroller⟩ := List.mem_filter.1 hp'
    obtain rfl := Param.eq_of_mem_declaredInKind hnames hmem hp hq' hin heq
    rw [hc] at hcontroller
    exact hne (by simpa using hcontroller)
  · exact Param.name_ne_of_mem_declaredInKind hnames hs hp hin

/-- **An edit at the top keeps a row filled.** This is so for every value, also for one that selects
no variant: then less is active than before.

**Proof sketch.** Take the parameters at the top one by one. One that holds a value keeps it or is
the edited one. Where the edited name is the controller, the variant that is selected was filled by
switching. Any other controller keeps its value, and with it the selected variant, of which nothing
is touched. -/
theorem fills_set (hsiblings : Param.ControlledBySiblings a.params) (h : Fills m a.params)
    {s : Param} (hs : s ∈ a.params) (value : EditValue) :
    Fills (m.set a s.name value) a.params := by
  obtain ⟨controllers, variants⟩ := hsiblings
  rw [fills_iff]
  intro p hp q hq
  cases hc : p.kind.controller? with
  | none =>
    have hvalue := ParamKind.isVariant_eq_false_iff.2 hc
    rw [Param.activeFor_of_isVariant hvalue, List.mem_singleton] at hq
    rw [hq, OrderedMap.contains, get?_set_of_mem hnames hp]
    split_ifs
    · rfl
    · exact h p (Param.mem_active_of_mem hp hvalue m)
  | some c =>
    rw [Param.activeFor_of_controller? hc] at hq
    cases hv : p.activeVariant? ((m.set a s.name value).textOf c) with
    | none =>
      rw [hv] at hq
      exact absurd hq List.not_mem_nil
    | some v =>
      rw [hv] at hq
      have hvariant := (Param.mem_variants_of_activeVariant? hv).1
      obtain ⟨t, ht, -, rfl⟩ := controllers p hp c hc
      rw [textOf, get?_set_of_mem hnames ht] at hv
      -- the controller is the edited name, or it keeps its value
      split_ifs at hv with hst
      · rw [← hst] at hc
        exact fills_set_of_controller hnames hp hc hv (variants p hp v hvariant) m q hq
      · exact (h.selected hp hc hv).set_of_ne hnames hs hp hc (fun e => hst e.symm) hvariant
          (variants p hp v hvariant) value q hq

end TopLevel

end Params

namespace ActionRow

variable {a : Action}

/-- The rows of an action that were not edited yet: the row that is made of the action alone, and
the rows in which actions of its type are opened that were stored before, with whatever parameters.
-/
inductive IsUnedited (a : Action) : ActionRow → Prop where
  /-- The row of a new action. -/
  | ofAction (id : String) : IsUnedited a (.ofAction id a)
  /-- The row of a stored action. -/
  | ofStored (id : String) {catalog : Catalog} {stored : StoredAction}
      (h : catalog.action? stored.type = some a) : IsUnedited a (.ofStored id catalog stored)

/-- A row of an action after a list of edits, each a name and the value that is entered for it. The
edits are made from left to right, each on the row that the ones before left. -/
def setParams (r : ActionRow) (a : Action) (edits : List (String × EditValue)) : ActionRow :=
  edits.foldl (fun r edit => r.setParam a edit.1 edit.2) r

/-- One more edit is made on the row after the ones before. -/
lemma setParams_concat (r : ActionRow) (a : Action) (done : List (String × EditValue))
    (name : String) (value : EditValue) :
    r.setParams a (done ++ [(name, value)]) = (r.setParams a done).setParam a name value := by
  rw [setParams, List.foldl_append]
  rfl

/-- A row that was not edited is filled. -/
lemma IsUnedited.fills {r : ActionRow} (h : r.IsUnedited a)
    (hwithin : Param.ControlledWithin (Param.DeclaresValue a.params) a.params) :
    r.params.Fills a.params := by
  cases h with
  | ofAction id => exact fills_ofAction hwithin id
  | ofStored id hfound =>
    rw [ActionRow.ofStored, hfound]
    exact fills_ofKnown hwithin id _

section Runs

variable (hnames : ((Param.declared a.params).map fun p => p.name).Nodup)
  (hsiblings : Param.ControlledBySiblings a.params)

include hnames hsiblings

/-- **What one edit does to a filled row.** It stays filled, unless the edit is one of a controller
within a variant and there is no value for what becomes active by it. The condition is exact: an
edit at the top never breaks it, nor does an edit of a name that controls nothing.

**Proof sketch.** An edit at the top keeps it filled (`Params.fills_set`). Any other edit writes one
value. If the name is no controller, what is active stays the same (`Param.active_congr`). -/
theorem fills_setParam_iff {r : ActionRow} (h : r.params.Fills a.params) (name : String)
    (value : EditValue) :
    (r.setParam a name value).params.Fills a.params ↔
      (a.IsNestedController name → ∀ p ∈ a.active (r.setParam a name value).params,
        p ∉ a.active r.params →
          OrderedMap.contains (r.setParam a name value).params p.name = true) := by
  refine ⟨fun hfills _ p hp _ => hfills p hp, fun hadded => ?_⟩
  by_cases htop : ∃ s ∈ a.params, s.name = name
  · obtain ⟨s, hs, rfl⟩ := htop
    exact Params.fills_set hnames hsiblings h hs value
  · -- a name that is not at the top controls nothing there
    have hset : (r.setParam a name value).params = OrderedMap.insert r.params name value := by
      refine Params.set_eq_insert (List.filter_eq_nil_iff.2 fun p hp hc => htop ?_) r.params value
      obtain ⟨controllers, -⟩ := hsiblings
      obtain ⟨s, hs, -, hname⟩ := controllers p hp name (by simpa using hc)
      exact ⟨s, hs, hname⟩
    have hkept : ∀ p ∈ a.active r.params,
        OrderedMap.contains (r.setParam a name value).params p.name = true := fun p hp => by
      rw [hset]
      exact OrderedMap.contains_insertMany (h p hp) [(name, value)]
    intro p hp
    by_cases hnested : a.IsNestedController name
    · by_cases hold : p ∈ a.active r.params
      · exact hkept p hold
      · exact hadded hnested p hp hold
    · -- no value that is looked at was written
      have hsame : a.active (r.setParam a name value).params = a.active r.params := by
        refine Param.active_congr fun c hc => Params.textOf_congr ?_
        rw [hset, OrderedMap.get?_insert, if_neg]
        rintro rfl
        exact hnested ⟨fun p hp hname => htop ⟨p, hp, hname⟩,
          Param.exists_mem_declared_of_consults hc⟩
      exact hkept p (hsame ▸ hp)

/-- **When a row stays filled while it is edited.** From a row that was not edited, all that is
active has a value at every moment of a sequence of edits exactly if, at each edit of a controller
within a variant, there is a value for all that becomes active by it. Edits of controllers at the
top need no condition, and a sequence without edits of nested controllers keeps the row filled
throughout.

**Proof sketch.** The row is filled to begin with (`IsUnedited.fills`); induction on the edits done,
one by one (`fills_setParam_iff`). -/
theorem fills_setParams_iff {r : ActionRow} (hr : r.IsUnedited a)
    (edits : List (String × EditValue)) :
    (∀ done, done <+: edits → (r.setParams a done).params.Fills a.params) ↔
      ∀ done name value, done ++ [(name, value)] <+: edits → a.IsNestedController name →
        ∀ p ∈ a.active (r.setParams a (done ++ [(name, value)])).params,
          p ∉ a.active (r.setParams a done).params →
            OrderedMap.contains (r.setParams a (done ++ [(name, value)])).params p.name = true := by
  refine ⟨fun hfills done name value hprefix _ p hp _ => hfills _ hprefix p hp, fun hadded => ?_⟩
  intro done
  induction done using List.reverseRecOn with
  | nil => exact fun _ => hr.fills (hsiblings.controlledWithin fun _ hname => hname)
  | append_singleton done edit ih =>
    intro hprefix
    obtain ⟨name, value⟩ := edit
    have hbefore := ih ((List.prefix_append done [(name, value)]).trans hprefix)
    have hnew := hadded done name value hprefix
    rw [setParams_concat] at hnew ⊢
    exact (fills_setParam_iff hnames hsiblings hbefore name value).2 hnew

end Runs

/-- The color of a rich layout. -/
def colorParam : Param := { name := "color", kind := .string }

/-- The mode and, in the variant of the rich one, the color. -/
def modeParams : List Param :=
  [{ name := "mode", choices := [⟨"plain", "plain"⟩, ⟨"rich", "rich"⟩], kind := .string },
    { name := "layout", kind := .variant "mode" [⟨"rich", [colorParam]⟩] }]

/-- An action with a provider and, in the variant of one provider, a mode with a variant. -/
def layeredAction : Action where
  type := "notify"
  params :=
    [{ name := "provider", choices := [⟨"slack", "slack"⟩, ⟨"email", "email"⟩], kind := .string },
      { name := "settings", kind := .variant "provider" [⟨"slack", modeParams⟩] }]

/-- The controllers of that action are siblings of what they control. -/
lemma controlledBySiblings_layeredAction : Param.ControlledBySiblings layeredAction.params := by
  have hcolor : Param.ControlledBySiblings [colorParam] := by
    refine .intro ?_ ?_ <;> simp [colorParam, ParamKind.controller?, ParamKind.variants]
  have hmode : Param.ControlledBySiblings modeParams := by
    refine .intro ?_ ?_ <;> simp [modeParams, ParamKind.controller?, ParamKind.variants,
      Param.DeclaresValue, ParamKind.isVariant, hcolor]
  refine .intro ?_ ?_ <;> simp [layeredAction, ParamKind.controller?, ParamKind.variants,
    Param.DeclaresValue, ParamKind.isVariant, hmode]

/-- While the provider of that action is edited to and fro, all that is active has a value. -/
theorem fills_setParams_provider :
    let edits : List (String × EditValue) :=
      [("provider", .text "email"), ("provider", .text "slack")]
    let row := ofAction "action-1" layeredAction
    ((Param.declared layeredAction.params).map fun p => p.name).Nodup ∧
      Param.ControlledBySiblings layeredAction.params ∧ row.IsUnedited layeredAction ∧
      ∀ done, done <+: edits →
        (row.setParams layeredAction done).params.Fills layeredAction.params := by
  intro edits row
  have hnames : ((Param.declared layeredAction.params).map fun p => p.name).Nodup := by decide
  have hrow : row.IsUnedited layeredAction := .ofAction "action-1"
  refine ⟨hnames, controlledBySiblings_layeredAction, hrow, ?_⟩
  refine (fills_setParams_iff hnames controlledBySiblings_layeredAction hrow edits).2 ?_
  intro done name value hprefix hnested
  have hedit : (name, value) ∈ edits := hprefix.subset (by simp)
  have hname : "provider" = name := by
    simp only [edits, List.mem_cons, Prod.mk.injEq, List.not_mem_nil, or_false] at hedit
    rcases hedit with ⟨rfl, -⟩ | ⟨rfl, -⟩ <;> rfl
  exact absurd hname (hnested.1 _ List.mem_cons_self)

/-- An edit of the mode of that action, which is within a variant, makes the color active, and the
row has no value for it. -/
theorem not_fills_setParam_mode :
    let row := (ofAction "action-1" layeredAction).setParam layeredAction "mode" (.text "rich")
    ((Param.declared layeredAction.params).map fun p => p.name).Nodup ∧
      Param.ControlledBySiblings layeredAction.params ∧
      Param.DeclaresValue (Param.declared layeredAction.params) "mode" ∧
      OrderedMap.keys row.params = ["provider", "mode"] ∧
      (layeredAction.active row.params).map (fun p => p.name) = ["provider", "mode", "color"] ∧
      ¬row.params.Fills layeredAction.params := by
  intro row
  have hactive : layeredAction.active row.params =
      [layeredAction.params[0], modeParams[0], colorParam] := by rfl
  have hdeclared : Param.declared layeredAction.params =
      [layeredAction.params[0], layeredAction.params[1], modeParams[0], modeParams[1],
        colorParam] := by rfl
  refine ⟨by decide, controlledBySiblings_layeredAction, ?_, rfl, ?_, fun hfills => ?_⟩
  · exact ⟨modeParams[0], by simp [hdeclared], rfl, rfl⟩
  · rw [hactive]
    rfl
  · have hcolor : colorParam ∈ layeredAction.active row.params := by simp [hactive]
    exact absurd (hfills colorParam hcolor) (by decide)

end ActionRow

end RuleEditor
