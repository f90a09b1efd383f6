import RuleEditor.Form.ActionRow.Stored
import RuleEditor.Proofs.Form.CommaList
import RuleEditor.Proofs.Json.Number

/-!
# Canonical parameter values

A stored value of a parameter is canonical if it comes back when it is opened and saved. Which
values do depends on the kind of the parameter alone. What is saved from a text is canonical, with
one exception: the text of an object without members is saved as that object, which is no value once
it is opened.

## Main definitions

* `Json.Number.IsExact` — the numbers that a parameter of the kind `number` keeps.
* `Catalog.ParamKind.IsCanonical` — the values that a parameter of a kind keeps.

## Main results

* `Catalog.ParamKind.isCanonical_of_storedText?` — what is saved from a text is canonical, or the
  object without members.
* `Catalog.Param.storedForm?_editForm_iff` — a value comes back exactly if it is canonical.
-/

set_option relaxedAutoImplicit false
set_option autoImplicit false

namespace RuleEditor

namespace Json.Number

/-- A number that reads back from its text as a floating-point number: an integer up to `2 ^ 53` in
magnitude, or a floating-point number that is not. A whole floating-point number up to that bound is
edited as the integer that it equals, and an integer above it as digits that are rounded when they
are read. -/
def IsExact : Number → Prop
  | .int n => n.val.natAbs ≤ 2 ^ 53
  | .float x => ¬(x.isWhole = true ∧ x.numerator / x.denominator ≤ 2 ^ 53)

/-- What a floating-point number becomes that was read from a text is exact. -/
lemma isExact_ofBinary64 (x : Binary64) : (ofBinary64 x).IsExact := by
  unfold ofBinary64
  split
  · next n h => exact Binary64.natAbs_le_of_exactInt? h
  · next h => exact Binary64.exactInt?_eq_none_iff.1 h

/-- The text of an exact number reads as a floating-point number that becomes that number. -/
lemma map_ofText?_display {n : Number} (h : n.IsExact) :
    (Binary64.ofText? (String.ofList n.display)).map ofBinary64 = some n := by
  rw [Binary64.ofText?, String.toList_ofList]
  cases n with
  | int n =>
    have hrange : n.val < 2 ^ 63 := by
      have hle : n.val.natAbs ≤ 2 ^ 53 := h
      omega
    obtain ⟨m, rfl⟩ := Integer.exists_ofInt64_eq hrange
    obtain ⟨x, hread, hexact⟩ := Binary64.exists_ofChars?_ofInt (n := m) h
    have hdisplay : (Number.int (.ofInt64 m)).display = Text.ofInt m.toInt := rfl
    rw [hdisplay, hread, Option.map_some, ofBinary64, hexact]
    rfl
  | float x =>
    rw [display_float h, ofChars?_floatText, Option.map_some, ofBinary64_eq_float h]

end Json.Number

namespace Catalog.ParamKind

/-- A value that a parameter of a kind keeps: a truth value of a switch, a list of items that is not
empty, an object with members, a number that its text spells out, or a trimmed text that spells out
no value of the kind.

The last case is that of a text where another kind of value was expected. It is kept as the text
that it is, as long as it is not read as a value of the kind: the text `5` of a parameter of numbers
becomes a number when it is saved. -/
def IsCanonical (kind : ParamKind) : Json → Prop
  | .null => False
  | .bool _ => kind = .boolean
  | .num n => kind = .number ∧ n.IsExact ∨ kind = .integer ∧ ∃ m, n = .ofInt64 m
  | .str s =>
    kind ≠ .boolean ∧ kind ≠ .stringArray ∧ Text.trim s = s ∧ s ≠ "" ∧ kind.parse? s = none
  | .arr items =>
    kind = .stringArray ∧ items ≠ [] ∧
      ∃ texts : List String, items = texts.map .str ∧ ∀ s ∈ texts, CommaList.IsItem s
  | .obj members => kind = .object ∧ members ≠ []

/-! ## Saving texts -/

/-- The value that a text spells out is a number, an integer or an object, as the kind has it. -/
lemma parse?_cases {kind : ParamKind} {s : String} {v : Json} (h : kind.parse? s = some v) :
    (kind = .number ∧ ∃ n : Json.Number, v = .num n ∧ n.IsExact) ∨
      (kind = .integer ∧ ∃ m, v = .ofInt64 m) ∨ (kind = .object ∧ ∃ members, v = .obj members) := by
  unfold parse? at h
  split at h
  · obtain ⟨x, -, rfl⟩ := Option.map_eq_some_iff.1 h
    exact .inl ⟨rfl, _, rfl, Json.Number.isExact_ofBinary64 x⟩
  · split at h
    · next n _ => exact .inr (.inl ⟨rfl, n, (Option.some.inj h).symm⟩)
    · obtain ⟨x, -, hx⟩ := Option.bind_eq_some_iff.1 h
      obtain ⟨n, -, rfl⟩ := Option.map_eq_some_iff.1 hx
      exact .inr (.inl ⟨rfl, n, rfl⟩)
  · obtain ⟨-, hobj⟩ := Option.filter_eq_some_iff.1 h
    cases v with
    | obj members => exact .inr (.inr ⟨rfl, members, rfl⟩)
    | _ => exact absurd hobj (by simp [Json.isObj, Json.obj?])
  · exact absurd h (by simp)

/-- What is saved from a text is canonical, or it is the object without members. So saving a text
once gives a value that is saved again as it is, but for that object: opened as an object without
members it is no value. -/
theorem isCanonical_of_storedText? {kind : ParamKind} {s : String} {v : Json}
    (hkind : kind ≠ .boolean) (h : kind.storedText? s = some v) :
    kind.IsCanonical v ∨ kind = .object ∧ v = .obj [] := by
  unfold storedText? at h
  split at h
  · -- a list
    unfold Json.nonEmptyList at h
    split at h
    · exact absurd h (by simp)
    · next items hitems =>
      obtain rfl := Option.some.inj h
      refine .inl ⟨rfl, hitems, CommaList.items s, rfl, fun t ht => ?_⟩
      exact CommaList.isItem_of_mem_items ht
  · next hlist =>
    obtain ⟨t, ht, rfl⟩ := Option.map_eq_some_iff.1 h
    obtain ⟨htrim, hne⟩ := Text.isTidy_of_nonBlank? ht
    cases hparse : kind.parse? t with
    | none => exact .inl ⟨hkind, hlist, htrim, hne, hparse⟩
    | some v =>
      rcases parse?_cases hparse with ⟨rfl, n, rfl, hn⟩ | ⟨rfl, m, rfl⟩ | ⟨rfl, members, rfl⟩
      · exact .inl (.inl ⟨rfl, hn⟩)
      · exact .inl (.inr ⟨rfl, m, rfl⟩)
      · cases members with
        | nil => exact .inr ⟨rfl, rfl⟩
        | cons member rest => exact .inl ⟨rfl, List.cons_ne_nil _ _⟩

/-- A trimmed text that spells out nothing under a kind is saved as it is. -/
lemma storedText?_str {kind : ParamKind} {s : String} (h : kind.IsCanonical (.str s)) :
    kind.storedText? s = some (.str s) := by
  obtain ⟨-, hlist, htrim, hne, hparse⟩ := h
  have hsome := Text.nonBlank?_of_trim_eq htrim hne
  cases kind <;> first
    | exact absurd rfl hlist
    | simp only [storedText?, hsome, Option.map_some, hparse, Option.getD_none]

/-- The text of a canonical number is saved as the number. -/
lemma storedText?_display {kind : ParamKind} {n : Json.Number} (h : kind.IsCanonical (.num n)) :
    kind.storedText? (String.ofList n.display) = some (.num n) := by
  rcases h with ⟨rfl, hn⟩ | ⟨rfl, m, rfl⟩
  · have hread := Json.Number.map_ofText?_display hn
    obtain ⟨x, hx, rfl⟩ := Option.map_eq_some_iff.1 hread
    simp only [storedText?, Json.Number.nonBlank?_display, Option.map_some, parse?, hx,
      Option.getD_some]
  · have hread : Text.int64? (Json.Number.ofInt64 m).display = some m := Text.int64?_ofInt m
    simp only [storedText?, Json.Number.nonBlank?_display, Option.map_some, parse?,
      String.toList_ofList, hread, Option.getD_some]
    rfl

end Catalog.ParamKind

namespace Catalog.Param

/-! ## Opening and saving -/

/-- Values of a parameter that is no switch are edited as texts, but for the members of objects. -/
lemma exists_editForm_eq_text {p : Param} {v : Json} (hkind : p.kind ≠ .boolean)
    (hv : p.kind = .object → v.isObj = false) : ∃ s, p.editForm v = .text s := by
  unfold editForm
  split
  · next h => exact absurd h hkind
  · exact ⟨_, rfl⟩
  · next h =>
    have hfalse := hv h
    exact absurd hfalse (by simp [Json.isObj, Json.obj?])
  · exact ⟨_, rfl⟩

/-- A text of a parameter that is no switch is saved under the kind of the parameter. -/
lemma storedForm?_text {p : Param} (hkind : p.kind ≠ .boolean) (s : String) :
    p.storedForm? (some (.text s)) = p.kind.storedText? s := by
  unfold storedForm?
  split
  · next h => exact absurd h hkind
  · rfl

/-- A switch stores whether it is on. -/
lemma storedForm?_of_boolean {p : Param} (hkind : p.kind = .boolean) (value : Option EditValue) :
    p.storedForm? value = some (.bool ((value.map EditValue.toBool).getD false)) := by
  unfold storedForm?
  rw [hkind]

/-- A parameter that is no switch stores nothing where there is no value. -/
lemma storedForm?_none {p : Param} (hkind : p.kind ≠ .boolean) : p.storedForm? none = none := by
  unfold storedForm?
  split
  · next h => exact absurd h hkind
  · rfl

/-- A switch of a parameter that is no switch is saved as a text. -/
lemma storedForm?_flag {p : Param} (hkind : p.kind ≠ .boolean) (b : Bool) :
    p.storedForm? (some (.flag b)) = some (.str (boolText b)) := by
  unfold storedForm?
  split
  · next h => exact absurd h hkind
  · rfl

/-- An object of a parameter that is no switch is saved as itself, if at all. -/
lemma eq_obj_of_storedForm?_object {p : Param} (hkind : p.kind ≠ .boolean)
    {members : Json.Object} {v : Json} (h : p.storedForm? (some (.object members)) = some v) :
    v = .obj members := by
  obtain ⟨info, kind⟩ := p
  cases kind with
  | boolean => exact absurd rfl hkind
  | object =>
    cases members with
    | nil => exact absurd h (by simp [storedForm?, Json.nonEmptyObject])
    | cons member rest => exact (Option.some.inj h).symm
  | _ => exact (Option.some.inj h).symm

/-- A switch keeps truth values and turns all other values into one. -/
lemma storedForm?_editForm_of_boolean {p : Param} (hkind : p.kind = .boolean) (v : Json) :
    p.storedForm? (some (p.editForm v)) = some (.bool v.strictBool) := by
  obtain ⟨info, kind⟩ := p
  obtain rfl : kind = .boolean := hkind
  rfl

/-- The members of an object are kept as long as there are any. -/
lemma storedForm?_editForm_of_object {p : Param} (hkind : p.kind = .object)
    (members : Json.Object) :
    p.storedForm? (some (p.editForm (.obj members))) = Json.nonEmptyObject members := by
  obtain ⟨info, kind⟩ := p
  obtain rfl : kind = .object := hkind
  rfl

/-- A canonical value comes back. -/
lemma storedForm?_editForm_of_isCanonical {p : Param} {v : Json} (h : p.kind.IsCanonical v) :
    p.storedForm? (some (p.editForm v)) = some v := by
  obtain ⟨info, kind⟩ := p
  cases v with
  | null => exact absurd h id
  | bool b =>
    obtain rfl : kind = .boolean := h
    cases b <;> rfl
  | num n =>
    have hstored := ParamKind.storedText?_display h
    rcases h with ⟨rfl, -⟩ | ⟨rfl, -⟩ <;> exact hstored
  | str s =>
    have hstored := ParamKind.storedText?_str h
    obtain ⟨hboolean, -⟩ := h
    cases kind <;> first
      | exact absurd rfl hboolean
      | exact hstored
  | arr items =>
    obtain ⟨rfl, hne, texts, rfl, htexts⟩ := h
    have hsplit := CommaList.split_join htexts
    show Json.nonEmptyList (CommaList.split (CommaList.join (texts.map .str))) = _
    rw [hsplit]
    cases texts with
    | nil => exact absurd rfl hne
    | cons text rest => rfl
  | obj members =>
    obtain ⟨rfl, hne⟩ := h
    rw [storedForm?_editForm_of_object rfl]
    cases members with
    | nil => exact absurd rfl hne
    | cons member rest => rfl

/-- **A stored value comes back exactly if it is canonical.** To come back is to be saved as it was
stored, if it is opened in the form in which the parameter is edited and left as it is. Values are
compared as they stand, an integer and a floating-point number being different.

**Proof sketch.** A switch always saves a truth value. Of the other kinds all values are edited as
texts, but for the members of objects, so that `isCanonical_of_storedText?` says what can come back;
and what is canonical comes back by the laws of reading for numbers, lists and texts. -/
theorem storedForm?_editForm_iff (p : Param) (v : Json) :
    p.storedForm? (some (p.editForm v)) = some v ↔ p.kind.IsCanonical v := by
  refine ⟨fun h => ?_, storedForm?_editForm_of_isCanonical⟩
  by_cases hboolean : p.kind = .boolean
  · rw [storedForm?_editForm_of_boolean hboolean] at h
    rw [← Option.some.inj h]
    exact hboolean
  by_cases hobject : p.kind = .object ∧ v.isObj = true
  · obtain ⟨hkind, hv⟩ := hobject
    cases v with
    | obj members =>
      rw [storedForm?_editForm_of_object hkind] at h
      refine ⟨hkind, ?_⟩
      rintro rfl
      exact absurd h (by simp [Json.nonEmptyObject])
    | _ => exact absurd hv (by simp [Json.isObj, Json.obj?])
  · obtain ⟨s, hs⟩ := exists_editForm_eq_text hboolean fun hkind => by simpa [hkind] using hobject
    rw [hs, storedForm?_text hboolean] at h
    rcases ParamKind.isCanonical_of_storedText? hboolean h with hcanonical | ⟨hkind, rfl⟩
    · exact hcanonical
    · exact absurd ⟨hkind, rfl⟩ hobject

end Catalog.Param

end RuleEditor
