import Mathlib.Data.List.Induction
import RuleEditor.Catalog.Basic
import RuleEditor.Proofs.OrderedMap

/-!
# What look-ups find

A catalog may list several operators, or several actions, under one name. The table of positions is
written entry by entry, so that the last entry of a name counts. The table of labels takes a name
only if it has no label yet, so that the first entry counts, and ids are entered before aliases.
Events are searched from the front. So the look-ups of a name agree on its first entry unless the
last entry is another one.

## Main definitions

* `Catalog.LooksUpFirst` — all look-ups of a name go by its first entry.

## Main results

* `Catalog.lookUp_eq_getLast?` — a table of positions gives the last entry of a name.
* `Catalog.get?_operatorLabels` — the table of labels gives that of the first id, or first alias.
* `Catalog.lookUps_iff` — what each look-up finds, and when all go by the first entry.
* `Catalog.looksUpFirst_of_nodup` — they do where no name is repeated.
-/

set_option relaxedAutoImplicit false
set_option autoImplicit false

namespace RuleEditor.Catalog

/-! ## Tables of positions -/

section Positions

variable {α : Type} {key : α → String}

/-- What a table of positions leads to is the last entry of the key, for whatever way of finding an
entry by its position. -/
lemma get?_positions_bind {at? : Nat → Option α} (entries : List α)
    (hat : ∀ i entry, entries[i]? = some entry → at? i = some entry) (name : String) :
    (OrderedMap.get? (positions key entries) name).bind at?
      = entries.reverse.find? fun entry => key entry = name := by
  rw [positions, OrderedMap.get?_ofList]
  -- the induction goes from the last entry to the first, as the table is searched
  induction entries using List.reverseRecOn with
  | nil => rfl
  | append_singleton rest entry ih =>
    have hrest : ∀ i other, rest[i]? = some other → at? i = some other := fun i other h =>
      hat i other (by rw [List.getElem?_append_left (List.getElem?_eq_some_iff.1 h).1, h])
    have hlast : at? rest.length = some entry := hat _ _ List.getElem?_concat_length
    simp only [List.zipIdx_append, List.zipIdx_cons, List.zipIdx_nil, Nat.zero_add,
      List.map_append, List.map_cons, List.map_nil, List.reverse_append, List.reverse_cons,
      List.reverse_nil, List.nil_append, List.cons_append, OrderedMap.get?, List.find?_cons]
    by_cases hkey : key entry = name
    · simp [hkey, hlast]
    · simpa [hkey] using ih hrest

/-- A look-up finds the first entry of the key from the back: the table is written from front to
back, and the last position of a key remains. -/
@[simp] lemma lookUp_eq_find?_reverse (entries : List α) (name : String) :
    lookUp key entries name = entries.reverse.find? fun entry => key entry = name :=
  get?_positions_bind entries (fun _ _ h => h) name

/-- A look-up finds the last entry of the key. Earlier entries of the key are in the list, but no
look-up by position leads to them. -/
theorem lookUp_eq_getLast? (entries : List α) (name : String) :
    lookUp key entries name = (entries.filter fun entry => key entry = name).getLast? := by
  rw [lookUp_eq_find?_reverse, List.getLast?_filter]

/-- A look-up finds the first entry of the key exactly if the last one is no other. The two may be
equal without being the same entry, which makes no difference to what is found. -/
lemma lookUp_eq_find?_iff (entries : List α) (name : String) :
    lookUp key entries name = entries.find? (fun entry => key entry = name) ↔
      (entries.filter fun entry => key entry = name).getLast?
        = (entries.filter fun entry => key entry = name).head? := by
  rw [lookUp_eq_getLast?, List.head?_filter]

/-- Where no key is repeated, a search finds the entry of the key, wherever in the list it stands.
-/
lemma find?_eq_some_iff_of_nodup {entries : List α} (h : (entries.map key).Nodup) {name : String}
    {entry : α} :
    entries.find? (fun other => key other = name) = some entry ↔
      entry ∈ entries ∧ key entry = name := by
  constructor
  · intro hfound
    exact ⟨List.mem_of_find?_eq_some hfound, by simpa using List.find?_some hfound⟩
  · rintro ⟨hmem, rfl⟩
    cases hfound : entries.find? fun other => key other = key entry with
    | none => exact absurd (List.find?_eq_none.1 hfound entry hmem) (by simp)
    | some other =>
      have hkey : key other = key entry := by simpa using List.find?_some hfound
      rw [List.inj_on_of_nodup_map h (List.mem_of_find?_eq_some hfound) hmem hkey]

/-- Where no key is repeated, a look-up finds the entry of the key. -/
lemma lookUp_eq_some_iff_of_nodup {entries : List α} (h : (entries.map key).Nodup) {name : String}
    {entry : α} : lookUp key entries name = some entry ↔ entry ∈ entries ∧ key entry = name := by
  have hreverse : (entries.reverse.map key).Nodup := by
    rw [List.map_reverse, List.nodup_reverse]
    exact h
  rw [lookUp_eq_find?_reverse, find?_eq_some_iff_of_nodup hreverse, List.mem_reverse]

/-- Where no key is repeated, a look-up finds the first entry of the key. -/
lemma lookUp_eq_find?_of_nodup {entries : List α} (h : (entries.map key).Nodup) (name : String) :
    lookUp key entries name = entries.find? fun entry => key entry = name := by
  ext entry
  rw [lookUp_eq_some_iff_of_nodup h, find?_eq_some_iff_of_nodup h]

end Positions

/-- An action that is found has the type that was looked for, and the catalog lists it. -/
lemma mem_of_action? {c : Catalog} {type : String} {a : Action} (h : c.action? type = some a) :
    a ∈ c.actions ∧ a.type = type := by
  rw [action?, lookUp_eq_find?_reverse] at h
  exact ⟨List.mem_reverse.1 (List.mem_of_find?_eq_some h), by simpa using List.find?_some h⟩

/-! ## The table of labels -/

/-- A label that is added counts only for a name without one. -/
lemma get?_addLabel (labels : OrderedMap String) (name label other : String) :
    OrderedMap.get? (addLabel labels name label) other
      = (OrderedMap.get? labels other).or (if name = other then some label else none) := by
  rw [addLabel]
  split_ifs with hname hother hother
  · -- the name has a label, so that nothing is added
    subst hother
    obtain ⟨old, hold⟩ := Option.isSome_iff_exists.1 hname
    rw [hold, Option.some_or]
  · rw [Option.or_none]
  · subst hother
    have hnone : OrderedMap.get? labels name = none := by
      simpa [OrderedMap.contains] using hname
    rw [OrderedMap.get?_insert, if_pos rfl, hnone, Option.none_or]
  · rw [OrderedMap.get?_insert, if_neg hother, Option.or_none]

/-- Where each step adds a value only to a name without one, the first step that has one counts. The
table of labels is filled by two such passes, over the ids and over the aliases. -/
lemma get?_foldl_or {α β : Type} {step : OrderedMap α → β → OrderedMap α} {name : String}
    {p : β → Bool} {v : β → α}
    (hstep : ∀ m b, OrderedMap.get? (step m b) name
      = (OrderedMap.get? m name).or (if p b then some (v b) else none))
    (bs : List β) (m : OrderedMap α) :
    OrderedMap.get? (bs.foldl step m) name
      = (OrderedMap.get? m name).or ((bs.find? p).map v) := by
  induction bs generalizing m with
  | nil => simp
  | cons b rest ih =>
    rw [List.foldl_cons, ih, hstep, Option.or_assoc, List.find?_cons]
    cases p b <;> simp

/-- The labels of a list of aliases count only for names without one. -/
lemma get?_foldl_addLabel (labels : OrderedMap String) (aliases : List String)
    (label name : String) :
    OrderedMap.get? (aliases.foldl (fun labels a => addLabel labels a label) labels) name
      = (OrderedMap.get? labels name).or (if aliases.contains name then some label else none) := by
  rw [get?_foldl_or (p := fun a => decide (a = name)) (v := fun _ => label)
    (fun m a => by rw [get?_addLabel]; simp)]
  congr 1
  cases hfound : aliases.find? fun a => decide (a = name) with
  | none =>
    have hnot : name ∉ aliases := fun hmem => by simpa using List.find?_eq_none.1 hfound name hmem
    simp [hnot]
  | some a =>
    obtain rfl : a = name := by simpa using List.find?_some hfound
    simp [List.mem_of_find?_eq_some hfound]

/-- The table of labels gives the label of the first operator with an id or, if there is none, of
the first that has it as an alias. It is filled in two passes for this reason. -/
theorem get?_operatorLabels (c : Catalog) (name : String) :
    OrderedMap.get? c.operatorLabels name
      = ((c.operators.find? fun op => op.id = name).or
          (c.operators.find? fun op => op.aliases.contains name)).map (·.label) := by
  rw [operatorLabels, get?_foldl_or fun m op => get?_foldl_addLabel m op.aliases op.label name,
    get?_foldl_or (p := fun op => decide (op.id = name)) (v := fun op => op.label)
      (fun m op => by rw [get?_addLabel]; simp),
    OrderedMap.get?_nil, Option.none_or, Option.map_or]

/-! ## All look-ups -/

/-- All look-ups of a name go by its first entry: the event, the operator and the action are the
first of their lists, and the label is that of the operator or, if there is none, that of the first
operator which has the name as an alias, or else the name. -/
structure LooksUpFirst (c : Catalog) (name : String) : Prop where
  /-- The event is the first of its type. -/
  event : c.event? name = c.events.find? fun e => e.type = name
  /-- The operator is the first of its id. -/
  operator : c.operator? name = c.operators.find? fun op => op.id = name
  /-- The action is the first of its type. -/
  action : c.action? name = c.actions.find? fun a => a.type = name
  /-- The label is that of the operator, or of the first that has the name as an alias. -/
  label : c.operatorLabel name
    = (((c.operator? name).or (c.operators.find? fun op => op.aliases.contains name)).map
        (·.label)).getD name

/-- The label to show goes by the first operator with the id, and then by the first alias; a name
that is neither is shown as it is. -/
lemma operatorLabel_eq (c : Catalog) (name : String) :
    c.operatorLabel name
      = (((c.operators.find? fun op => op.id = name).or
          (c.operators.find? fun op => op.aliases.contains name)).map (·.label)).getD name := by
  rw [operatorLabel, get?_operatorLabels]

/-- All look-ups go by the first entry exactly if those by the tables of positions do: events and
labels go by it in any case. -/
lemma looksUpFirst_iff (c : Catalog) (name : String) :
    c.LooksUpFirst name ↔
      c.operator? name = c.operators.find? (fun op => op.id = name) ∧
        c.action? name = c.actions.find? (fun a => a.type = name) := by
  constructor
  · exact fun h => ⟨h.operator, h.action⟩
  · rintro ⟨hoperator, haction⟩
    exact ⟨rfl, hoperator, haction, by rw [operatorLabel_eq, hoperator]⟩

/-- All look-ups go by the first entry where no id and no type is repeated. -/
theorem looksUpFirst_of_nodup {c : Catalog} (hoperators : (c.operators.map Operator.id).Nodup)
    (hactions : (c.actions.map Action.type).Nodup) (name : String) : c.LooksUpFirst name :=
  (looksUpFirst_iff c name).2
    ⟨lookUp_eq_find?_of_nodup hoperators name, lookUp_eq_find?_of_nodup hactions name⟩

/-- **What the look-ups of a name find.** The event is the first of its type; the operator and the
action are the last of their lists; the label is that of the first operator with the id, or else of
the first operator that has the name as an alias, or else the name. So all of them go by the first
entry exactly if neither the last operator nor the last action of the name is another than the
first.

**Proof sketch.** Operators and actions are found by tables of positions, in which a later entry
replaces an earlier one (`lookUp_eq_getLast?`), and labels by a table in which it does not
(`get?_operatorLabels`). -/
theorem lookUps_iff (c : Catalog) (name : String) :
    c.event? name = (c.events.filter fun e => e.type = name).head? ∧
      c.operator? name = (c.operators.filter fun op => op.id = name).getLast? ∧
      c.action? name = (c.actions.filter fun a => a.type = name).getLast? ∧
      c.operatorLabel name
        = (((c.operators.find? fun op => op.id = name).or
            (c.operators.find? fun op => op.aliases.contains name)).map (·.label)).getD name ∧
      (c.LooksUpFirst name ↔
        (c.operators.filter fun op => op.id = name).getLast?
            = (c.operators.filter fun op => op.id = name).head? ∧
          (c.actions.filter fun a => a.type = name).getLast?
            = (c.actions.filter fun a => a.type = name).head?) := by
  refine ⟨List.head?_filter.symm, lookUp_eq_getLast? _ _, lookUp_eq_getLast? _ _,
    c.operatorLabel_eq name, ?_⟩
  rw [looksUpFirst_iff, operator?, action?, lookUp_eq_find?_iff, lookUp_eq_find?_iff]

/-- A catalog that lists an operator and an action twice. -/
def repeatedEntries : Catalog where
  operators := [{ id := "==", label := "equals" }, { id := "==", label := "same" }]
  actions := [{ type := "tag", label := "Tag" }, { type := "tag", label := "Mark" }]

/-- With repeated entries the operator of an id and its label belong to different entries. -/
theorem not_looksUpFirst_repeatedEntries :
    repeatedEntries.operator? "==" = some { id := "==", label := "same" } ∧
      repeatedEntries.operatorLabel "==" = "equals" ∧
      ¬repeatedEntries.LooksUpFirst "==" ∧ ¬repeatedEntries.LooksUpFirst "tag" := by
  have hlast : repeatedEntries.operator? "==" = some { id := "==", label := "same" } := by rfl
  refine ⟨hlast, by rfl, fun h => ?_, fun h => ?_⟩
  · have hfirst := h.operator
    rw [hlast] at hfirst
    exact absurd hfirst (by decide)
  · have hlabel := congrArg (Option.map Action.label) h.action
    exact absurd hlabel (by decide)

end RuleEditor.Catalog
