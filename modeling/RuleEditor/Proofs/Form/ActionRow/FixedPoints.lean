import RuleEditor.Proofs.Catalog.Raw
import RuleEditor.Proofs.Form.ActionRow.Active
import RuleEditor.Proofs.Form.ActionRow.Stored

/-!
# Fixed points of parameter values

What is saved from a text is saved again if it is opened and left as it is: after one save a
parameter has a value that opening and saving keep. The one exception is the object without members,
which only a text of the kind of objects can stand for.

An integer that is stored under a parameter of numbers need not be such a value. It is opened as its
digits, and those are read as a floating-point number, which has the value of the integer only up to
`2 ^ 53` in magnitude. A parameter of integers keeps all integers of 64 bits.

## Main definitions

* `Catalog.ParamKind.IsLine` — the kinds of parameters whose values are edited in one line.

## Main results

* `Catalog.Param.storedForm?_editForm_of_storedForm?` — one save brings a value to a fixed point.
* `ActionRow.get?_toStored_ofStored` — what a stored value is saved as.
* `ActionRow.get?_toStored_ofInt64_iff` — which integers are saved as they were stored.
-/

set_option relaxedAutoImplicit false
set_option autoImplicit false

namespace RuleEditor

open Catalog

namespace Catalog

/-! ## One save -/

/-- The kinds whose values are edited in one line, whatever is stored. The others are switches and
objects, which are edited in forms of their own. -/
def ParamKind.IsLine (kind : ParamKind) : Prop :=
  kind = .string ∨ kind = .number ∨ kind = .integer ∨ kind = .stringArray

namespace Param

/-- **One save brings a value to a fixed point.** What a switch saves of any value, and what a
parameter of one of the kinds of one line saves of a text, is saved once more if it is opened and
left as it is, with integers and floating-point numbers kept apart.

**Proof sketch.** A switch saves a truth value, and a text gives a canonical value or the object
without members (`ParamKind.isCanonical_of_storedText?`), which is of no kind of one line. What is
canonical comes back (`storedForm?_editForm_iff`). -/
theorem storedForm?_editForm_of_storedForm? {p : Param} {value : EditValue} {v : Json}
    (hkind : p.kind = .boolean ∨ p.kind.IsLine ∧ ∃ s, value = .text s)
    (h : p.storedForm? (some value) = some v) : p.storedForm? (some (p.editForm v)) = some v := by
  rw [storedForm?_editForm_iff]
  rcases hkind with hboolean | ⟨hline, s, rfl⟩
  · rw [storedForm?_of_boolean hboolean] at h
    rw [← Option.some.inj h]
    exact hboolean
  · have hboolean : p.kind ≠ .boolean := by
      rcases hline with hkind | hkind | hkind | hkind <;> simp [hkind]
    rw [storedForm?_text hboolean] at h
    rcases ParamKind.isCanonical_of_storedText? hboolean h with hcanonical | ⟨hobject, -⟩
    · exact hcanonical
    · rcases hline with hkind | hkind | hkind | hkind <;>
        exact absurd (hkind.symm.trans hobject) (by simp)

/-- The limit of an action, of some kind. -/
def limitParam (kind : ParamKind) : Param := { name := "limit", required := true, kind }

/-- A number with an exponent, a list with a blank item and an object in place of a switch, each
with what is saved of it and what is saved of that. -/
theorem storedForm?_editForm_limitParam :
    ((limitParam .number).storedForm? (some (.text " 1.5e3")) = some (.ofInt64 1500) ∧
      (limitParam .number).storedForm? (some ((limitParam .number).editForm (.ofInt64 1500))) =
        some (.ofInt64 1500)) ∧
    ((limitParam .stringArray).storedForm? (some (.text "a b, ,c ")) =
        some (.arr [.str "a b", .str "c"]) ∧
      (limitParam .stringArray).storedForm?
          (some ((limitParam .stringArray).editForm (.arr [.str "a b", .str "c"]))) =
        some (.arr [.str "a b", .str "c"])) ∧
    ((limitParam .boolean).storedForm? (some (.object [("a", .null)])) = some (.bool false) ∧
      (limitParam .boolean).storedForm? (some ((limitParam .boolean).editForm (.bool false))) =
        some (.bool false)) := by
  have hnumber : (limitParam .number).storedForm? (some (.text " 1.5e3")) =
      some (.ofInt64 1500) := rfl
  have hlist : (limitParam .stringArray).storedForm? (some (.text "a b, ,c ")) =
      some (.arr [.str "a b", .str "c"]) := rfl
  have hswitch : (limitParam .boolean).storedForm? (some (.object [("a", .null)])) =
      some (.bool false) := rfl
  refine ⟨⟨hnumber, ?_⟩, ⟨hlist, ?_⟩, hswitch, ?_⟩
  · exact storedForm?_editForm_of_storedForm? (.inr ⟨.inr (.inl rfl), _, rfl⟩) hnumber
  · exact storedForm?_editForm_of_storedForm? (.inr ⟨.inr (.inr (.inr rfl)), _, rfl⟩) hlist
  · exact storedForm?_editForm_of_storedForm? (.inl rfl) hswitch

end Param

end Catalog

namespace ActionRow

/-! ## Stored values -/

/-- **What a stored value is saved as.** A value that is stored for a parameter at the top of an
action, which declares the name nowhere else, is saved as the parameter saves its edited form. What
else is stored beside it makes no difference, because a parameter at the top is active under all
values. -/
theorem get?_toStored_ofStored {events operators actions : Json} {id : String} {a : Action}
    {p : Param} {stored : Json.Object} {v : Json}
    (ha : a ∈ (Catalog.ofSections events operators actions).actions) (hp : p ∈ a.params)
    (hvalue : p.kind.isVariant = false)
    (honce : ∀ q ∈ Param.declared a.params, q.name = p.name → q = p)
    (hd : OrderedMap.Distinct stored) (hv : OrderedMap.get? stored p.name = some v) :
    OrderedMap.get? ((ofStored id (.ofSections events operators actions) ⟨a.type, stored⟩).toStored
      (.ofSections events operators actions)).params p.name = p.saved? (some (p.editForm v)) := by
  have htype : Text.trim a.type = a.type :=
    (Text.isTidy_of_nonBlank? (Action.nonBlank?_type_of_mem_listOfRaw ha)).1
  have hactive := Param.mem_active_of_mem hp hvalue (a.opened stored)
  have hform : editFormOf a p.name v = p.editForm v := by
    rw [editFormOf, Action.findParam?_of_once (Params.mem_declared_of_mem hp) honce]
  have hsaved := toStored_ofStored_of_found (a := ⟨a.type, stored⟩) htype
    (Catalog.action?_type_of_mem ha) id
  rw [hsaved, Action.get?_storedKnown, Action.get?_opened_of_eq_some hd hv, hform]
  refine Param.savedByLast?_eq_saved? hactive (fun q hq hname => ?_) _
  exact honce q (Param.mem_declared_of_mem_active _ q _ hq) hname

/-- **Which integers are saved as they were stored.** An integer of 64 bits that is stored for a
parameter of numbers or of integers at the top of an action, which declares the name nowhere else,
is saved as that integer exactly if the parameter is one of integers or the integer is at most
`2 ^ 53` in magnitude.

**Proof sketch.** The parameter saves the edited form of the integer (`get?_toStored_ofStored`),
which gives the integer exactly if it is canonical for the kind (`Param.storedForm?_editForm_iff`);
of the numbers that a parameter of numbers keeps, the integers are those up to `2 ^ 53`. -/
theorem get?_toStored_ofInt64_iff {events operators actions : Json} {id : String} {a : Action}
    {p : Param} (ha : a ∈ (Catalog.ofSections events operators actions).actions) (hp : p ∈ a.params)
    (hkind : p.kind = .number ∨ p.kind = .integer)
    (honce : ∀ q ∈ Param.declared a.params, q.name = p.name → q = p) (n : Int64) :
    let catalog := Catalog.ofSections events operators actions
    let row := ofStored id catalog ⟨a.type, [(p.name, .ofInt64 n)]⟩
    OrderedMap.get? (row.toStored catalog).params p.name = some (.ofInt64 n) ↔
      p.kind = .integer ∨ n.toInt.natAbs ≤ 2 ^ 53 := by
  intro catalog row
  have hvalue : p.kind.isVariant = false := by
    rcases hkind with hkind | hkind <;> rw [hkind] <;> rfl
  have hd : OrderedMap.Distinct [(p.name, Json.ofInt64 n)] := List.nodup_singleton _
  have hv : OrderedMap.get? [(p.name, Json.ofInt64 n)] p.name = some (.ofInt64 n) := by
    simp [OrderedMap.get?]
  have hexact : (Json.Number.ofInt64 n).IsExact ↔ n.toInt.natAbs ≤ 2 ^ 53 := Iff.rfl
  rw [get?_toStored_ofStored ha hp hvalue honce hd hv, Action.saved?_editForm_iff]
  show (p.kind = .number ∧ (Json.Number.ofInt64 n).IsExact ∨
    p.kind = .integer ∧ ∃ m, Json.Number.ofInt64 n = .ofInt64 m) ∨ _ ↔ _
  rcases hkind with hkind | hkind
  · have hempty : Json.ofInt64 n ≠ ParamKind.number.emptyValue := Json.noConfusion
    simp [hkind, hexact, hempty]
  · simp [hkind]

/-- The actions of a catalog with one action, which has a limit of some kind that controls another
parameter. -/
def limitSection (kind : String) : Json :=
  .arr [.obj [("type", .str "throttle"), ("params", .arr [
    .obj [("name", .str "limit"), ("kind", .str kind), ("required", .bool true)],
    .obj [("name", .str "settings"), ("controller", .str "limit"), ("variants", .arr [
      .obj [("value", .str "0"), ("params", .arr [.obj [("name", .str "until")]])]])]])]]

/-- This action. -/
def limitAction (kind : ParamKind) : Action where
  type := "throttle"
  params :=
    [.limitParam kind,
      { name := "settings"
        kind := .variant "limit" [⟨"0", [{ name := "until", kind := .string }]⟩] }]

/-- The limit is declared once. -/
lemma eq_limitParam_of_mem_declared {kind : ParamKind}
    (hkind : kind = .number ∨ kind = .integer) :
    ∀ q ∈ Param.declared (limitAction kind).params, q.name = "limit" → q = .limitParam kind := by
  rcases hkind with rfl | rfl <;>
    simp [limitAction, Param.limitParam, Param.declared, Param.declaredInKind,
      Param.declaredInVariants]

/-- A limit of the kind of integers keeps the least integer of 64 bits. -/
theorem get?_toStored_minValue :
    let catalog := Catalog.ofSections .null .null (limitSection "integer")
    let row := ofStored "action-1" catalog ⟨"throttle", [("limit", .ofInt64 Int64.minValue)]⟩
    limitAction .integer ∈ catalog.actions ∧
      .limitParam .integer ∈ (limitAction .integer).params ∧
      (∀ q ∈ Param.declared (limitAction .integer).params, q.name = "limit" →
        q = .limitParam .integer) ∧
      OrderedMap.get? (row.toStored catalog).params "limit" =
        some (.ofInt64 Int64.minValue) := by
  intro catalog row
  have hactions : catalog.actions = [limitAction .integer] := rfl
  have ha : limitAction .integer ∈ catalog.actions := by
    rw [hactions]
    exact List.mem_singleton_self _
  have hp : .limitParam .integer ∈ (limitAction .integer).params := List.mem_cons_self
  have honce : ∀ q ∈ Param.declared (limitAction .integer).params, q.name = "limit" →
      q = .limitParam .integer := eq_limitParam_of_mem_declared (.inr rfl)
  exact ⟨ha, hp, honce, (get?_toStored_ofInt64_iff ha hp (.inr rfl) honce _).2 (.inl rfl)⟩

/-- A limit of the kind of numbers does not keep the integer after `2 ^ 53`: it is saved as
`2 ^ 53`. -/
theorem get?_toStored_beyond_exact :
    let catalog := Catalog.ofSections .null .null (limitSection "number")
    let row := ofStored "action-1" catalog ⟨"throttle", [("limit", .ofInt64 9007199254740993)]⟩
    limitAction .number ∈ catalog.actions ∧
      .limitParam .number ∈ (limitAction .number).params ∧
      (∀ q ∈ Param.declared (limitAction .number).params, q.name = "limit" →
        q = .limitParam .number) ∧
      OrderedMap.get? (row.toStored catalog).params "limit" = some (.ofInt64 9007199254740992) ∧
      Json.ofInt64 9007199254740992 ≠ .ofInt64 9007199254740993 := by
  refine ⟨List.mem_cons_self, List.mem_cons_self, eq_limitParam_of_mem_declared (.inl rfl), rfl, ?_⟩
  intro h
  exact absurd (congrArg Json.int64? h) (by decide)

end ActionRow

end RuleEditor
