import Mathlib.Data.List.Forall2
import RuleEditor.Portable.Import

/-!
# What importing accepts

Importing goes through a document item by item and stops at the first fault. Where it does not stop,
each item was read by itself: the numbers that items are counted by only matter in messages.

## Main definitions

* `Portable.ReadsCondition`, `Portable.ReadsAction` — the item that a value is read as, wherever it
  stands.

## Main results

* `Portable.importItems_eq_ok_iff`, `Portable.importList_eq_ok_iff` — when a list is imported.
* `Portable.importCondition_eq_ok_iff`, `Portable.importAction_eq_ok_iff` — when an item is.
* `Portable.importJson_eq_ok_iff` — when a document is.
-/

set_option relaxedAutoImplicit false
set_option autoImplicit false

namespace RuleEditor.Portable

/-! ## Members -/

/-- A member that is read as a text is not blank. -/
lemma isBlank_of_nonBlankMember? {o : Json.Object} {name s : String}
    (h : nonBlankMember? o name = some s) : Text.isBlank s = false := by
  obtain ⟨-, hblank⟩ := Option.filter_eq_some_iff.1 h
  simpa using hblank

/-- A member that is there is not `null`. -/
lemma isNull_of_presentMember? {o : Json.Object} {name : String} {v : Json}
    (h : presentMember? o name = some v) : v.isNull = false := by
  obtain ⟨-, hnull⟩ := Option.filter_eq_some_iff.1 h
  simpa using hnull

/-! ## Lists -/

/-- A list is imported exactly if each of its items is, wherever it stands. The hypothesis says that
the number of an item matters for messages only. -/
theorem importItems_eq_ok_iff {α : Type} {importItem : Nat → Json → Except ImportError α}
    {reads : Json → α → Prop} (hitem : ∀ index v a, importItem index v = .ok a ↔ reads v a)
    (items : List Json) (index : Nat) (as : List α) :
    importItems importItem items index = .ok as ↔ List.Forall₂ reads items as := by
  induction items generalizing index as with
  | nil => simp [importItems, eq_comm]
  | cons v rest ih =>
    rw [importItems, List.forall₂_cons_left_iff]
    cases hhead : importItem index v with
    | error e =>
      have hbad : ∀ a, ¬reads v a := by
        intro a hreads
        rw [(hitem index v a).2 hreads] at hhead
        exact absurd hhead (by simp)
      simp [hbad]
    | ok a =>
      have hreads : ∀ b, reads v b ↔ b = a := by
        intro b
        rw [← hitem index v b, hhead, Except.ok.injEq, eq_comm]
      cases htail : importItems importItem rest (index + 1) with
      | error e =>
        have hbad : ∀ more, ¬List.Forall₂ reads rest more := by
          intro more hmore
          rw [(ih (index + 1) more).2 hmore] at htail
          exact absurd htail (by simp)
        simp [hbad]
      | ok more =>
        have hrest : ∀ others, List.Forall₂ reads rest others ↔ others = more := by
          intro others
          rw [← ih (index + 1) others, htail, Except.ok.injEq, eq_comm]
        simp [hreads, hrest, eq_comm]

/-- A member is imported as a list exactly if it is one, has items, and each of them is imported.
What is said if not does not matter here. -/
theorem importList_eq_ok_iff {α : Type} {importItem : Nat → Json → Except ImportError α}
    {reads : Json → α → Prop} (hitem : ∀ index v a, importItem index v = .ok a ↔ reads v a)
    (missing : ImportError) (o : Json.Object) (name : String) (as : List α) :
    importList importItem missing o name = .ok as ↔
      ∃ items, OrderedMap.get? o name = some (.arr items) ∧ items ≠ [] ∧
        List.Forall₂ reads items as := by
  rw [importList]
  cases hmember : (OrderedMap.get? o name).bind Json.arr? with
  | none =>
    have hbad : ∀ items, OrderedMap.get? o name ≠ some (.arr items) := by
      intro items hitems
      rw [hitems, Option.bind_some, Json.arr?] at hmember
      exact absurd hmember (by simp)
    simp [hbad]
  | some items =>
    obtain ⟨v, hv, harr⟩ := Option.bind_eq_some_iff.1 hmember
    obtain rfl : v = .arr items := by
      cases v with
      | arr items' => rw [Option.some.inj harr]
      | _ => exact absurd harr (by simp [Json.arr?])
    cases items with
    | nil => simp [hv]
    | cons v rest =>
      simp only [importItems_eq_ok_iff hitem, hv, Option.some.injEq, Json.arr.injEq]
      constructor
      · intro h
        exact ⟨v :: rest, rfl, List.cons_ne_nil v rest, h⟩
      · rintro ⟨items, rfl, -, h⟩
        exact h

/-- An imported list has items, and each of them was read from an item of the document. -/
lemma exists_of_importList {α : Type} {importItem : Nat → Json → Except ImportError α}
    {reads : Json → α → Prop} (hitem : ∀ index v a, importItem index v = .ok a ↔ reads v a)
    {missing : ImportError} {o : Json.Object} {name : String} {as : List α}
    (h : importList importItem missing o name = .ok as) : as ≠ [] ∧ ∀ a ∈ as, ∃ v, reads v a := by
  obtain ⟨items, -, hne, hitems⟩ := (importList_eq_ok_iff hitem missing o name as).1 h
  constructor
  · rintro rfl
    exact hne (List.forall₂_nil_right_iff.1 hitems)
  · clear hne h
    induction hitems with
    | nil => simp
    | @cons v a rest more hread _ ih =>
      intro b hb
      rcases List.mem_cons.1 hb with rfl | hb
      · exact ⟨v, hread⟩
      · exact ih b hb

/-! ## Items -/

/-- A value that is read as a comparison: an object with a path and an operator that are not blank,
and with the right side that `rightSide?` finds. -/
def ReadsCondition (v : Json) (c : RuleEditor.Condition) : Prop :=
  ∃ o, v = .obj o ∧ nonBlankMember? o "path" = some c.path ∧
    nonBlankMember? o "operator" = some c.op ∧ rightSide? o = c.right

/-- A value that is read as an action: an object with a type that is not blank, and with the
parameters that it has, if any. -/
def ReadsAction (v : Json) (a : StoredAction) : Prop :=
  ∃ o, v = .obj o ∧ nonBlankMember? o "type" = some a.type ∧
    ((OrderedMap.get? o "params").bind Json.obj?).getD [] = a.params

/-- Importing a comparison is reading it: the number that it is counted by does not matter for what
it is imported as. -/
theorem importCondition_eq_ok_iff (index : Nat) (v : Json) (c : RuleEditor.Condition) :
    importCondition index v = .ok c ↔ ReadsCondition v c := by
  obtain ⟨op, path, right⟩ := c
  unfold ReadsCondition
  cases v with
  | obj o =>
    simp only [importCondition, Json.obj?, Option.bind_some, Json.obj.injEq, exists_eq_left']
    cases nonBlankMember? o "path" with
    | none => simp
    | some path' =>
      simp only [Option.map_some]
      cases nonBlankMember? o "operator" with
      | none => simp
      | some op' =>
        simp only [Except.ok.injEq, RuleEditor.Condition.mk.injEq, Option.some.injEq]
        exact and_left_comm
  | _ => simp [importCondition, Json.obj?]

/-- Importing an action is reading it: the number that it is counted by does not matter for what it
is imported as. -/
theorem importAction_eq_ok_iff (index : Nat) (v : Json) (a : StoredAction) :
    importAction index v = .ok a ↔ ReadsAction v a := by
  obtain ⟨type, params⟩ := a
  unfold ReadsAction
  cases v with
  | obj o =>
    simp only [importAction, Json.obj?, Option.bind_some, Json.obj.injEq, exists_eq_left']
    cases nonBlankMember? o "type" with
    | none => simp
    | some type' => simp
  | _ => simp [importAction, Json.obj?]

/-! ## Documents -/

/-- A document is imported exactly if it is an object of which both lists are imported. The rule is
then put together from the lists and the other members. -/
theorem importJson_eq_ok_iff (v : Json) (r : Rule) :
    importJson v = .ok r ↔
      ∃ o conditions actions, v = .obj o ∧
        importList importCondition .noConditions o "conditions" = .ok conditions ∧
        importList importAction .noActions o "actions" = .ok actions ∧
        ruleOfMembers o conditions actions = r := by
  cases v with
  | obj o =>
    rw [importJson]
    cases hconditions : importList importCondition .noConditions o "conditions" with
    | error e => simp [hconditions]
    | ok conditions =>
      cases hactions : importList importAction .noActions o "actions" with
      | error e => simp [hconditions, hactions]
      | ok actions => simp [hconditions, hactions]
  | _ => simp [importJson]

end RuleEditor.Portable
