import RuleEditor.Form.ActionRow.Seeding
import RuleEditor.Proofs.Json.Number

/-!
# Defaults among the choices

A raw catalog gives the choices of a parameter as JSON values and the default as one too. The value
of a choice is kept in the text in which a document has it, the default is shown in the text in
which it is edited. The two are the same text for all texts, truth values and numbers but one class:
a whole floating-point number up to `2 ^ 53` is written with a fraction and edited without.

## Main definitions

* `Json.IsScalar` — texts, numbers and truth values.

## Main results

* `Catalog.Choice.valueOfRaw?_eq_some_editText_iff` — which choices have the text that is edited.
* `Catalog.Param.defaultValue?_of_isSingleSelect` — where there are choices, a default is edited.
* `Catalog.Param.defaultValue?_eq_choice_iff` — which defaults select the choice that they equal.
-/

set_option relaxedAutoImplicit false
set_option autoImplicit false

namespace RuleEditor

/-- A text, a number or a truth value. These are the values that a choice can have. -/
def Json.IsScalar : Json → Prop
  | .str _ | .num _ | .bool _ => True
  | _ => False

namespace Catalog

/-- A text, a number or a truth value is the value of a choice in one text or another. -/
lemma Choice.exists_valueOfRaw? {v : Json} (hv : v.IsScalar) :
    ∃ value, valueOfRaw? v = some value := by
  cases v with
  | bool b => exact ⟨_, rfl⟩
  | num n => exact ⟨_, rfl⟩
  | str s => exact ⟨_, rfl⟩
  | _ => exact hv.elim

/-- The value of a choice is the text in which it is edited, unless it is a whole floating-point
number up to `2 ^ 53`: the choice `3.0` has that text as its value, and the number is edited as `3`.
-/
theorem Choice.valueOfRaw?_eq_some_editText_iff {v : Json} (hv : v.IsScalar) :
    valueOfRaw? v = some v.editText ↔ ∀ n, v = .num n → ¬n.IsWholeFloat := by
  cases v with
  | bool b => exact ⟨fun _ n h => absurd h (by simp), fun _ => rfl⟩
  | str s => exact ⟨fun _ n h => absurd h (by simp), fun _ => rfl⟩
  | num n =>
    have htexts : valueOfRaw? (.num n) = some (Json.num n).editText ↔ n.display = n.text := by
      rw [valueOfRaw?, Json.editText, Option.some.injEq, String.ofList_inj, eq_comm]
    rw [htexts, Json.Number.display_eq_text_iff]
    exact ⟨fun h m hm => Json.num.inj hm ▸ h, fun h => h n rfl⟩
  | _ => exact hv.elim

namespace Param

/-- What an entry that is read declares. -/
lemma toParamInfo_of_ofRaw? {o : Json.Object} {p : Param} (h : ofRaw? (.obj o) = some p) :
    p.toParamInfo = infoOfRaw p.name o := by
  rw [ofRaw?, Option.map_eq_some_iff] at h
  obtain ⟨name, _, rfl⟩ := h
  rfl

/-- Where there are choices, a default is shown in the text in which it is edited, whether it is
among the choices or not and whatever the kind of the parameter is. -/
theorem defaultValue?_of_isSingleSelect {p : Param} {v : Json} (hkind : p.kind.isVariant = false)
    (hselect : p.isSingleSelect = true) (hdefault : p.default = some v) :
    p.defaultValue? = some (.text v.editText) := by
  obtain ⟨info, kind⟩ := p
  have hinfo : info.default = some v := hdefault
  cases kind with
  | variant controller variants => exact absurd hkind (by simp [ParamKind.isVariant])
  | _ => simp only [defaultValue?, hselect, hinfo, ↓reduceIte]

/-- **A default selects the choice that it equals unless it is a whole floating-point number.** Take
an entry that is read as a parameter which is neither one of variants nor a list, and whose choices
have an object with a text, a number or a truth value that is its default as well. That object is
one of the choices, and the row of a new action begins with the value of that choice exactly if the
value is no whole floating-point number up to `2 ^ 53`.

**Proof sketch.** There is a choice, so that the default is shown in the text in which it is edited
(`defaultValue?_of_isSingleSelect`), and that is the text of the choice for all other values
(`Choice.valueOfRaw?_eq_some_editText_iff`). -/
theorem defaultValue?_eq_choice_iff {o entry : Json.Object} {p : Param} {items : List Json}
    {v : Json} (hread : ofRaw? (.obj o) = some p) (hkind : p.kind.isVariant = false)
    (hlist : p.kind.isStringArray = false)
    (hitems : (OrderedMap.get? o "choices").or (OrderedMap.get? o "options") = some (.arr items))
    (hentry : .obj entry ∈ items) (hvalue : OrderedMap.get? entry "value" = some v)
    (hscalar : v.IsScalar) (hdefault : OrderedMap.get? o "default" = some v) :
    ∃ choice, Choice.ofRaw? (.obj entry) = some choice ∧ choice ∈ p.choices ∧
      p.defaultValue? = some (.text v.editText) ∧
      (p.defaultValue? = some (.text choice.value) ↔ ∀ n, v = .num n → ¬n.IsWholeFloat) := by
  obtain ⟨value, htext⟩ := Choice.exists_valueOfRaw? hscalar
  have hinfo := toParamInfo_of_ofRaw? hread
  let choice : Choice := ⟨value, (Json.Object.text? entry ["label", "name"]).getD value⟩
  have hchoice : Choice.ofRaw? (.obj entry) = some choice := by
    simp [Choice.ofRaw?, hvalue, htext, choice]
  have hmem : choice ∈ p.choices := by
    rw [show p.choices = choicesOfRaw o from congrArg ParamInfo.choices hinfo, choicesOfRaw, hitems]
    exact List.mem_filterMap.2 ⟨.obj entry, hentry, hchoice⟩
  have hselect : p.isSingleSelect = true := by
    have hne : p.choices ≠ [] := List.ne_nil_of_mem hmem
    simp [isSingleSelect, hne, hlist]
  have hnull : v.isNull = false := by
    cases v with
    | null => exact hscalar.elim
    | _ => rfl
  have hshown : p.defaultValue? = some (.text v.editText) := by
    refine defaultValue?_of_isSingleSelect hkind hselect ?_
    rw [show p.default = _ from congrArg ParamInfo.default hinfo]
    simp [infoOfRaw, hdefault, hnull]
  refine ⟨choice, hchoice, hmem, hshown, ?_⟩
  rw [← Choice.valueOfRaw?_eq_some_editText_iff hscalar, htext, hshown]
  simp [choice, eq_comm]

/-- A choice of a value. -/
def choiceOf (v : Json) : Json.Object := [("label", .str "usual"), ("value", v)]

/-- An entry that offers a value among others, and has it as its default. -/
def shareEntry (v : Json) : Json.Object :=
  [("name", .str "share "), ("type", .str "Float"),
    ("options", .arr [.str "none", .obj (choiceOf v), .bool true]), ("default", v)]

/-- What the entry is read as. -/
def shareParam (v : Json) : Param := ⟨infoOfRaw "share" (shareEntry v), .number⟩

/-- One half, as a number with a fraction. -/
def half : Json := .num (.float ⟨false, 1022 * 2 ^ 52, by decide⟩)

/-- The number three, as a floating-point number. -/
def three : Json := .num (.float ⟨false, 1024 * 2 ^ 52 + 2 ^ 51, by decide⟩)

/-- One half as the default selects the choice of one half. -/
theorem defaultValue?_eq_choice_half :
    ofRaw? (.obj (shareEntry half)) = some (shareParam half) ∧
      (shareParam half).kind.isVariant = false ∧ (shareParam half).kind.isStringArray = false ∧
      (OrderedMap.get? (shareEntry half) "choices").or (OrderedMap.get? (shareEntry half) "options")
        = some (.arr [.str "none", .obj (choiceOf half), .bool true]) ∧
      OrderedMap.get? (choiceOf half) "value" = some half ∧ half.IsScalar ∧
      OrderedMap.get? (shareEntry half) "default" = some half ∧
      ∃ choice, Choice.ofRaw? (.obj (choiceOf half)) = some choice ∧
        choice ∈ (shareParam half).choices ∧
        (shareParam half).defaultValue? = some (.text choice.value) := by
  have hread : ofRaw? (.obj (shareEntry half)) = some (shareParam half) := rfl
  have hentry : Json.obj (choiceOf half) ∈ [.str "none", .obj (choiceOf half), .bool true] := by
    simp
  obtain ⟨choice, hchoice, hmem, -, hselects⟩ := defaultValue?_eq_choice_iff hread rfl rfl rfl
    hentry rfl (show half.IsScalar from trivial) rfl
  refine ⟨hread, rfl, rfl, rfl, rfl, trivial, rfl, choice, hchoice, hmem, hselects.2 ?_⟩
  intro n hn hwhole
  obtain rfl := Json.num.inj hn
  exact absurd hwhole.1 (by decide +kernel)

/-- The number three as the default is shown without fraction, while the choice of three has one. -/
theorem not_defaultValue?_eq_choice_three :
    ofRaw? (.obj (shareEntry three)) = some (shareParam three) ∧
      (shareParam three).kind.isVariant = false ∧ (shareParam three).kind.isStringArray = false ∧
      OrderedMap.get? (choiceOf three) "value" = some three ∧
      OrderedMap.get? (shareEntry three) "default" = some three ∧
      Choice.ofRaw? (.obj (choiceOf three)) = some ⟨"3.0", "usual"⟩ ∧
      ⟨"3.0", "usual"⟩ ∈ (shareParam three).choices ∧
      (shareParam three).defaultValue? = some (.text "3") := by
  have hchoice : Choice.ofRaw? (.obj (choiceOf three)) = some ⟨"3.0", "usual"⟩ := by
    decide +kernel
  have hentry : Json.obj (choiceOf three) ∈ [.str "none", .obj (choiceOf three), .bool true] := by
    simp
  have hmem : ⟨"3.0", "usual"⟩ ∈ (shareParam three).choices :=
    List.mem_filterMap.2 ⟨.obj (choiceOf three), hentry, hchoice⟩
  have hshown : (shareParam three).defaultValue? = some (.text three.editText) :=
    defaultValue?_of_isSingleSelect rfl rfl rfl
  have htext : three.editText = "3" := by decide +kernel
  exact ⟨rfl, rfl, rfl, rfl, rfl, hchoice, hmem, by rw [hshown, htext]⟩

end Param

end Catalog

end RuleEditor
