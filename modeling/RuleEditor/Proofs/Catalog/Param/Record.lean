import RuleEditor.Proofs.Catalog.Tidy
import RuleEditor.Proofs.Json.Record
import RuleEditor.Proofs.OrderedMap

/-!
# Reading written parameters

The record of a parameter holds the members of the declaration and those of its kind side by side,
and the variants of the kind hold such records again. No member of the one is taken for a member of
the other, so that a declaration is read back from its record, except that a default of `null` is
taken for none. Declarations that were read from a raw catalog have no such default, at any depth.

## Main definitions

* `Catalog.Param.HaveNoNullDefault` — no default in a list of parameters is `null`, at any depth.

## Main results

* `Catalog.Param.infoOfMembers?_members` — what is read of a declaration.
* `Catalog.Param.ofJson?_toJson_of_isVariant`, `Catalog.Param.ofJson?_toJson_variant` — what is read
  of a parameter, by its kind.
* `Catalog.Param.ofJson?_toJson_iff` — the parameters that are read back as they were.
* `Catalog.Param.ofJson?_toJson_of_nested` — those of a raw catalog are read back as they were.
-/

set_option relaxedAutoImplicit false
set_option autoImplicit false

namespace RuleEditor.Catalog

/-- A choice is read back from its record. -/
lemma Choice.ofJson?_toJson (c : Choice) : ofJson? c.toJson = some c := rfl

namespace Param

/-! ## Members -/

/-- The members of the record of a parameter: those of the declaration, with those of the kind among
them. -/
def members (info : ParamInfo) (kind : ParamKind) : Json.Object :=
  leadingMembers info ++ kindMembers kind ++ trailingMembers info

/-- The record of a parameter is an object with these members. -/
lemma toJson_eq (info : ParamInfo) (kind : ParamKind) :
    toJson ⟨info, kind⟩ = .obj (members info kind) := by
  rw [toJson, members]

/-- The members that tell the kind have three names at most. -/
lemma get?_kindMembers_eq_none {name : String} (h : name ∉ ["kind", "controller", "variants"])
    (kind : ParamKind) : OrderedMap.get? (kindMembers kind) name = none := by
  obtain ⟨hkind, hcontroller, hvariants⟩ :
      ¬"kind" = name ∧ ¬"controller" = name ∧ ¬"variants" = name := by
    simpa [eq_comm] using h
  cases kind <;> simp [kindMembers, OrderedMap.get?, hkind, hcontroller, hvariants]

/-- A member of another name than those that tell the kind is one of the declaration. No name is
shared, so that the members of the one never hide those of the other. -/
lemma get?_members {name : String} (h : name ∉ ["kind", "controller", "variants"])
    (info : ParamInfo) (kind : ParamKind) :
    OrderedMap.get? (members info kind) name =
      (OrderedMap.get? (leadingMembers info) name).or
        (OrderedMap.get? (trailingMembers info) name) := by
  rw [members, OrderedMap.get?_append, OrderedMap.get?_append, get?_kindMembers_eq_none h,
    Option.or_none]

/-- The kind is given by its name. -/
lemma get?_members_kind (info : ParamInfo) (kind : ParamKind) :
    OrderedMap.get? (members info kind) "kind" = some (.str kind.name) := by
  have hkind : OrderedMap.get? (kindMembers kind) "kind" = some (.str kind.name) := by
    cases kind <;> simp [kindMembers, OrderedMap.get?, ParamKind.name]
  simp [members, leadingMembers, OrderedMap.get?_append, OrderedMap.get?, Json.get?_memberIf, hkind]

/-- The kind of variants is also given by its controller. -/
lemma get?_members_controller (info : ParamInfo) (controller : String) (variants : List Variant) :
    OrderedMap.get? (members info (.variant controller variants)) "controller" =
      some (.str controller) := by
  simp [members, leadingMembers, kindMembers, OrderedMap.get?_append, OrderedMap.get?,
    Json.get?_memberIf]

/-- The kind of variants is also given by these. -/
lemma get?_members_variants (info : ParamInfo) (controller : String) (variants : List Variant) :
    OrderedMap.get? (members info (.variant controller variants)) "variants" =
      some (.arr (variantsToJson variants)) := by
  simp [members, leadingMembers, kindMembers, OrderedMap.get?_append, OrderedMap.get?,
    Json.get?_memberIf]

/-! ## Declarations -/

/-- A declaration without a default of `null`. This is all that a record changes in a declaration.
-/
def withoutNull (info : ParamInfo) : ParamInfo :=
  { info with default := info.default.filter fun v => !v.isNull }

/-- A declaration is the same without a default of `null` exactly if it has no such default. -/
lemma withoutNull_eq_self_iff {info : ParamInfo} :
    withoutNull info = info ↔ info.default ≠ some .null := by
  obtain ⟨name, label, inputHint, choices, required, hidden, readonly, default⟩ := info
  cases default with
  | none => simp [withoutNull]
  | some v => cases v <;> simp [withoutNull, Option.filter, Json.isNull]

/-- **A declaration is read back**, whatever the kind beside it, except that a default of `null` is
taken for none. -/
theorem infoOfMembers?_members (info : ParamInfo) (kind : ParamKind) :
    infoOfMembers? (members info kind) = some (withoutNull info) := by
  have hget : ∀ name, name ∉ ["kind", "controller", "variants"] →
      OrderedMap.get? (members info kind) name =
        (OrderedMap.get? (leadingMembers info) name).or
          (OrderedMap.get? (trailingMembers info) name) :=
    fun name h => get?_members h info kind
  simp only [leadingMembers, trailingMembers, OrderedMap.get?_append, OrderedMap.get?,
    Json.get?_memberIf, Json.get?_listIf] at hget
  have hname : (members info kind).required Json.str? "name" = some info.name :=
    Json.Object.required_of_get? (v := .str info.name) (by simp [hget])
  have hlabel : (members info kind).optional Json.str? "label" = some info.label :=
    Json.Object.optional_str?_eq_some (by simp [hget])
  have hhint : (members info kind).optional Json.str? "input_hint" = some info.inputHint :=
    Json.Object.optional_str?_eq_some (by simp [hget])
  have hchoices : (members info kind).orElse (Json.listOf? Choice.ofJson?) [] "choices" =
      some info.choices :=
    Json.Object.orElse_listOf?_eq_some Choice.ofJson?_toJson (by simp [hget])
  have hrequired : (members info kind).orElse Json.bool? false "required" = some info.required :=
    Json.Object.orElse_of_get? (v := .bool info.required) (by simp [hget]) false
  have hhidden : (members info kind).orElse Json.bool? false "hidden" = some info.hidden :=
    Json.Object.orElse_of_get? (v := .bool info.hidden) (by simp [hget]) false
  have hreadonly : (members info kind).orElse Json.bool? false "readonly" = some info.readonly :=
    Json.Object.orElse_of_get? (v := .bool info.readonly) (by simp [hget]) false
  have hdefault : (members info kind).optional some "default" =
      some (info.default.filter fun v => !v.isNull) := by
    rw [Json.Object.optional_some]
    simp [hget]
  simp only [infoOfMembers?, hname, hlabel, hhint, hchoices, hrequired, hhidden, hreadonly,
    hdefault, Option.bind_eq_bind, Option.bind_some, Option.pure_def, withoutNull]

/-! ## Records -/

/-- The variants are those under the name `variants`, if it holds a list. -/
lemma variantsOfMembers?_eq (o : Json.Object) :
    variantsOfMembers? o = (OrderedMap.get? o "variants").bind variantsOfJson? := by
  induction o with
  | nil => rfl
  | cons member rest ih =>
    obtain ⟨name, v⟩ := member
    by_cases hname : name = "variants" <;>
      simp [variantsOfMembers?, OrderedMap.get?, hname, ih]

/-- A parameter that holds a value is read back, except that a default of `null` is taken for none.
Its kind is known by its name alone. -/
theorem ofJson?_toJson_of_isVariant (info : ParamInfo) {kind : ParamKind}
    (h : kind.isVariant = false) :
    ofJson? (toJson ⟨info, kind⟩) = some ⟨withoutNull info, kind⟩ := by
  have hkind : (members info kind).required kindName? "kind" = some kind.name := by
    rw [Json.Object.required_of_get? (get?_members_kind info kind)]
    cases kind <;> simp [kindName?, kindNames, ParamKind.name]
  have hplain : plainKind? kind.name = some kind := by
    cases kind <;> first | rfl | simp [ParamKind.isVariant] at h
  rw [toJson_eq, ofJson?]
  simp only [infoOfMembers?_members, hkind, hplain, Option.bind_eq_bind, Option.bind_some,
    Option.pure_def]

/-- A parameter of the kind of variants is read with what its written variants are read as. If one
of them could not be read, the parameter could not be either. -/
theorem ofJson?_toJson_variant (info : ParamInfo) (controller : String) (variants : List Variant) :
    ofJson? (toJson ⟨info, .variant controller variants⟩) =
      (variantsOfItems? (variantsToJson variants)).map fun read =>
        ⟨withoutNull info, .variant controller read⟩ := by
  have hkind : (members info (.variant controller variants)).required kindName? "kind" =
      some "variant" := by
    rw [Json.Object.required_of_get? (get?_members_kind info _)]
    simp [kindName?, kindNames, ParamKind.name]
  have hcontroller : (members info (.variant controller variants)).required Json.str? "controller" =
      some controller :=
    Json.Object.required_of_get? (get?_members_controller info controller variants)
  have hvariants : variantsOfMembers? (members info (.variant controller variants)) =
      variantsOfItems? (variantsToJson variants) := by
    rw [variantsOfMembers?_eq, get?_members_variants, Option.bind_some, variantsOfJson?]
  rw [toJson_eq, ofJson?]
  simp only [infoOfMembers?_members, hkind, hcontroller, hvariants, Option.bind_eq_bind,
    Option.bind_some, Option.pure_def]
  cases variantsOfItems? (variantsToJson variants) <;> rfl

/-- A variant is read with what its written parameters are read as. -/
lemma variantOfJson?_variantToJson (v : Variant) :
    variantOfJson? (variantToJson v) =
      (listOfItems? (listToJson v.params)).map fun read => ⟨v.discriminator, read⟩ := by
  obtain ⟨discriminator, params⟩ := v
  rw [variantToJson, variantOfJson?]
  cases h : listOfItems? (listToJson params) <;>
    simp [Json.Object.required, OrderedMap.get?, Json.str?, paramsOfMembers?, listOfJson?, h]

/-! ## What is read back -/

/-- No default in a list of parameters is `null`, at any depth. A default of `null` is written as
such and read as none, so that it would not come back. -/
def HaveNoNullDefault (params : List Param) : Prop :=
  ∀ inner, Nested params inner → ∀ p ∈ inner, p.default ≠ some .null

/-- The defaults in a list are those of its parameters and those in their variants. -/
lemma haveNoNullDefault_iff {params : List Param} :
    HaveNoNullDefault params ↔ ∀ p ∈ params, p.default ≠ some .null ∧
      ∀ v ∈ p.kind.variants, HaveNoNullDefault v.params := by
  constructor
  · intro h p hp
    exact ⟨h params (.here params) p hp, fun v hv inner hinner => h inner (.inside hp hv hinner)⟩
  · intro h inner hinner q hq
    cases hinner with
    | here => exact (h q hq).1
    | inside hp hv hinner => exact (h _ hp).2 _ hv inner hinner q hq

/-- The same for a list that is a parameter and further ones. -/
lemma haveNoNullDefault_cons_iff {p : Param} {rest : List Param} :
    HaveNoNullDefault (p :: rest) ↔ (p.default ≠ some .null ∧
      ∀ v ∈ p.kind.variants, HaveNoNullDefault v.params) ∧ HaveNoNullDefault rest := by
  rw [haveNoNullDefault_iff, List.forall_mem_cons, ← haveNoNullDefault_iff]

mutual

/-- **A parameter is read back from its record exactly if no default is `null`**, neither its own
nor one in its variants, at any depth. Everything else of a declaration comes back, be it empty or
repeated. -/
theorem ofJson?_toJson_iff : ∀ p : Param, ofJson? p.toJson = some p ↔
    p.default ≠ some .null ∧ ∀ v ∈ p.kind.variants, HaveNoNullDefault v.params
  | ⟨info, .variant controller variants⟩ => by
    have hvariants := variantsOfItems?_variantsToJson_iff variants
    rw [ofJson?_toJson_variant, ← withoutNull_eq_self_iff]
    show _ ↔ _ ∧ ∀ v ∈ variants, HaveNoNullDefault v.params
    rw [← hvariants]
    cases variantsOfItems? (variantsToJson variants) with
    | none => simp
    | some read => simp [Param.mk.injEq]
  | ⟨info, .string⟩ | ⟨info, .number⟩ | ⟨info, .integer⟩ | ⟨info, .boolean⟩ | ⟨info, .object⟩
  | ⟨info, .stringArray⟩ => by
    rw [ofJson?_toJson_of_isVariant info rfl, ← withoutNull_eq_self_iff]
    simp [ParamKind.variants]

/-- Variants are read back from their records exactly if no default in them is `null`. -/
lemma variantsOfItems?_variantsToJson_iff : ∀ variants : List Variant,
    variantsOfItems? (variantsToJson variants) = some variants ↔
      ∀ v ∈ variants, HaveNoNullDefault v.params
  | [] => by simp [variantsToJson, variantsOfItems?]
  | ⟨discriminator, params⟩ :: rest => by
    have hparams := listOfItems?_listToJson_iff params
    have hrest := variantsOfItems?_variantsToJson_iff rest
    rw [variantsToJson, variantsOfItems?, variantOfJson?_variantToJson, List.forall_mem_cons,
      ← hparams, ← hrest]
    cases listOfItems? (listToJson params) <;>
      cases variantsOfItems? (variantsToJson rest) <;> simp

/-- Parameters are read back from their records exactly if no default in them is `null`. -/
lemma listOfItems?_listToJson_iff : ∀ params : List Param,
    listOfItems? (listToJson params) = some params ↔ HaveNoNullDefault params
  | [] => by
    rw [haveNoNullDefault_iff]
    simp [listToJson, listOfItems?]
  | p :: rest => by
    rw [listToJson, listOfItems?, haveNoNullDefault_cons_iff, ← ofJson?_toJson_iff p,
      ← listOfItems?_listToJson_iff rest]
    cases ofJson? p.toJson <;> cases listOfItems? (listToJson rest) <;> simp

end

/-! ## Raw catalogs -/

/-- A list within a list within a third one stands in the third one. -/
lemma Nested.trans {params params' params'' : List Param} (h : Nested params params')
    (h' : Nested params' params'') : Nested params params'' := by
  induction h with
  | here => exact h'
  | inside hp hv _ ih => exact .inside hp hv (ih h')

/-- Tidy lists have no default of `null`. -/
lemma AreTidyWithin.haveNoNullDefault {params : List Param} (h : AreTidyWithin params) :
    HaveNoNullDefault params :=
  fun inner hinner p hp => ((h inner hinner).params p hp).default

/-- **The parameters of a raw catalog are read back from their records**, at any depth.

**Proof sketch.** What is read from a raw catalog is tidy at any depth, so that no default is
`null`. -/
theorem ofJson?_toJson_of_nested {raw : Json} {a : Action} {params : List Param} {p : Param}
    (ha : a ∈ Action.listOfRaw raw) (hparams : Nested a.params params) (hp : p ∈ params) :
    ofJson? p.toJson = some p := by
  obtain ⟨entry, -, hentry⟩ := List.mem_filterMap.1 (mem_of_mem_keepFirst ha)
  have htidy := (Action.areTidyWithin_params_of_ofRaw? hentry).haveNoNullDefault
  have hinner : HaveNoNullDefault params := fun inner hinner => htidy inner (hparams.trans hinner)
  exact (ofJson?_toJson_iff p).2 (haveNoNullDefault_iff.1 hinner p hp)

/-- A raw section with variants in a variant, choices of both forms, flags, and defaults of which
one is `null` and one holds `null`. -/
def mailSection : Json :=
  .arr [.obj [("type", .str "mail"), ("params", .arr [
    .obj [("name", .str " provider"), ("default", .null),
      ("choices", .arr [.str "smtp", .obj [("value", .bool true), ("label", .str "On")]])],
    .obj [("name", .str "settings"), ("variants", .arr [
      .obj [("value", .str "smtp"), ("params", .arr [
        .obj [("name", .str "layout"), ("controller", .str "mode"), ("input", .str "select"),
          ("hidden", .str "yes"), ("default", .obj [("kind", .null)]), ("variants", .arr [
            .obj [("discriminator", .str "rich"), ("params", .arr [
              .obj [("name", .str "tags"), ("kind", .str "List"),
                ("required", .bool true)]])]])]])]])]])]]

/-- The parameter that stands in the variant. -/
def layoutParam : Param where
  name := "layout"
  inputHint := some "select"
  hidden := true
  default := some (.obj [("kind", .null)])
  kind := .variant "mode"
    [⟨"rich", [{ name := "tags", required := true, kind := .stringArray }]⟩]

/-- The action of the section. -/
def mailAction : Action where
  type := "mail"
  params :=
    [{ name := "provider", choices := [⟨"smtp", "smtp"⟩, ⟨"true", "On"⟩], kind := .string },
      { name := "settings", kind := .variant "provider" [⟨"smtp", [layoutParam]⟩] }]

/-- The parameter in the variant is read back with the variants that it has itself. -/
theorem ofJson?_toJson_layoutParam :
    mailAction ∈ Action.listOfRaw mailSection ∧ Nested mailAction.params [layoutParam] ∧
      layoutParam ∈ [layoutParam] ∧ ofJson? layoutParam.toJson = some layoutParam := by
  have hread : Action.listOfRaw mailSection = [mailAction] := by rfl
  have ha : mailAction ∈ Action.listOfRaw mailSection := by
    rw [hread]
    exact List.mem_singleton_self mailAction
  have hnested : Nested mailAction.params [layoutParam] :=
    .inside (List.mem_cons_of_mem _ List.mem_cons_self) List.mem_cons_self (.here [layoutParam])
  have hp := List.mem_singleton_self layoutParam
  exact ⟨ha, hnested, hp, ofJson?_toJson_of_nested ha hnested hp⟩

end Param

end RuleEditor.Catalog
