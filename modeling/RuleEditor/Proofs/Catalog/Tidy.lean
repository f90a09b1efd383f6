import RuleEditor.Proofs.Catalog.Raw

/-!
# What a raw section of actions becomes

Whatever a raw section holds, the actions that are read from it are tidy: names are trimmed and not
empty, none is repeated within a list, and this holds of the lists in variants too, at any depth. An
entry that cannot be read, or that repeats a name, is left out and does not disturb the others: each
action is read from the first entry that names its type, as if that entry stood alone.

## Main definitions

* `Catalog.Param.Nested` — one list of parameters stands in another, at any depth.
* `Catalog.Param.IsTidy`, `Catalog.Param.AreTidy` — tidy declarations, and lists of them.
* `Catalog.Action.typeOfRaw?` — the type that an entry names.

## Main results

* `Catalog.Param.areTidyWithin_listOfRaw` — what is read of parameters is tidy at any depth.
* `map_keepFirst` — the keys that are kept are the distinct ones, as they first come.
* `find?_of_mem_keepFirst` — an entry that is kept is the first of its key.
* `Catalog.Action.tidy_and_first_of_listOfRaw` — what a raw section of actions becomes.
-/

set_option relaxedAutoImplicit false
set_option autoImplicit false

namespace RuleEditor

/-! ## The first entries -/

/-- What is left out of a list may be left out before or after repetitions are. It joins the
recursion of `keepFirst`, which removes repetitions of the head, with that of `List.eraseDups`. -/
lemma eraseDups_filter (keep : String → Bool) :
    ∀ names : List String, (names.filter keep).eraseDups = names.eraseDups.filter keep
  | [] => rfl
  | name :: rest => by
    have hrest := eraseDups_filter keep (rest.filter fun other => !other == name)
    rw [List.eraseDups_cons, List.filter_cons, List.filter_cons, ← hrest]
    cases hkeep : keep name with
    | true => rw [if_pos rfl, if_pos rfl, List.eraseDups_cons, List.filter_comm]
    | false =>
      -- the name itself is not kept, so that leaving it out before makes no difference
      rw [if_neg Bool.false_ne_true, if_neg Bool.false_ne_true, List.filter_filter]
      congr 1
      refine List.filter_congr fun other _ => ?_
      by_cases h : other = name <;> simp [h, hkeep]
termination_by names => names.length
decreasing_by exact Nat.lt_succ_of_le (List.length_filter_le _ _)

/-- The keys of the entries that are left are the distinct keys, as they first come. So no key is
lost and none is moved. -/
theorem map_keepFirst {α : Type} (key : α → String) (xs : List α) :
    (keepFirst key xs).map key = (xs.map key).eraseDups := by
  induction xs with
  | nil => rfl
  | cons x rest ih =>
    rw [keepFirst, List.map_cons, List.map_cons, List.eraseDups_cons, eraseDups_filter, ← ih,
      List.filter_map]
    rfl

/-- An entry that is left is the first of its key, so that what is read of it does not depend on
later entries. -/
theorem find?_of_mem_keepFirst {α : Type} {key : α → String} {xs : List α} {x : α}
    (h : x ∈ keepFirst key xs) : (xs.find? fun y => key y = key x) = some x := by
  induction xs with
  | nil => exact absurd h List.not_mem_nil
  | cons y rest ih =>
    rcases List.mem_cons.1 h with rfl | h
    · simp
    · obtain ⟨hrest, hne⟩ := List.mem_filter.1 h
      have hkey : ¬key y = key x := fun e => by simp [e] at hne
      rw [List.find?_cons_of_neg (by simpa using hkey)]
      exact ih hrest

namespace Catalog

/-! ## Tidy parameters -/

namespace Param

/-- A list of parameters stands in another one: it is that list, or it stands in the parameters of a
variant of one of them. Statements at any depth are statements about all lists that stand in one. -/
inductive Nested : List Param → List Param → Prop where
  /-- The list itself. -/
  | here (params : List Param) : Nested params params
  /-- A list in a variant of a parameter. -/
  | inside {params inner : List Param} {p : Param} {v : Variant} (hp : p ∈ params)
      (hv : v ∈ p.kind.variants) (h : Nested v.params inner) : Nested params inner

/-- The declaration of a parameter with a tidy name and without a default of `null`. If it is one of
variants, it has some, and these and the controller have tidy names too. -/
structure IsTidy (p : Param) : Prop where
  /-- The name is trimmed and not empty. -/
  name : Text.IsTidy p.name
  /-- The default is not `null`. -/
  default : p.default ≠ some .null
  /-- There are variants if the kind is that of variants, and they and the controller have tidy
  names. -/
  variants : ∀ controller variants, p.kind = .variant controller variants →
    Text.IsTidy controller ∧ variants ≠ [] ∧ ∀ v ∈ variants, Text.IsTidy v.discriminator

/-- A list of tidy declarations that repeats no name. It says nothing of the lists in variants,
which are tidy by themselves (`AreTidyWithin`). -/
structure AreTidy (params : List Param) : Prop where
  /-- No name is repeated. -/
  names : (params.map fun p => p.name).Nodup
  /-- All declarations are tidy. -/
  params : ∀ p ∈ params, p.IsTidy

/-- A list of parameters is tidy at any depth: each list that stands in it is tidy by itself. The
same name may occur in two of them. -/
def AreTidyWithin (params : List Param) : Prop := ∀ inner, Nested params inner → AreTidy inner

/-- A tidy list is tidy at any depth if the lists in its variants are. -/
lemma AreTidy.within {params : List Param} (h : AreTidy params)
    (hvariants : ∀ p ∈ params, ∀ v ∈ p.kind.variants, AreTidyWithin v.params) :
    AreTidyWithin params := by
  intro inner hinner
  cases hinner with
  | here => exact h
  | inside hp hv h => exact hvariants _ hp _ hv inner h

/-- The empty list is tidy, and no other list stands in it. -/
lemma areTidyWithin_nil : AreTidyWithin [] :=
  AreTidy.within ⟨List.nodup_nil, fun _ hp => absurd hp List.not_mem_nil⟩
    fun _ hp => absurd hp List.not_mem_nil

/-- The kind that a name stands for is never that of variants. -/
lemma isVariant_ofRawName (name : String) : (ParamKind.ofRawName name).isVariant = false := by
  simp only [ParamKind.ofRawName]
  split_ifs <;> rfl

/-- An entry without variants is not of the kind of variants. -/
lemma isVariant_kindOfRaw_nil (o : Json.Object) : (kindOfRaw o []).isVariant = false := by
  have hkind : kindOfRaw o [] = ((o.text? ["kind", "type"]).map ParamKind.ofRawName).getD .string :=
    rfl
  rw [hkind]
  cases o.text? ["kind", "type"] with
  | none => rfl
  | some name =>
    rw [Option.map_some, Option.getD_some]
    exact isVariant_ofRawName name

/-- An entry is of the kind of variants only if it has some, and the controller is tidy. -/
lemma of_kindOfRaw_eq_variant {o : Json.Object} {given variants : List Variant}
    {controller : String} (h : kindOfRaw o given = .variant controller variants) :
    variants = given ∧ variants ≠ [] ∧ Text.IsTidy controller := by
  cases given with
  | nil =>
    have hvalue := isVariant_kindOfRaw_nil o
    rw [h] at hvalue
    exact absurd hvalue (by simp [ParamKind.isVariant])
  | cons v rest =>
    obtain ⟨rfl, rfl⟩ := ParamKind.variant.inj h
    refine ⟨rfl, List.cons_ne_nil v rest, ?_⟩
    cases hcontroller : o.text? ["controller"] with
    | none => exact ⟨by decide +kernel, by decide⟩
    | some c => exact Text.isTidy_of_nonBlank? (Json.Object.nonBlank?_of_text? hcontroller)

/-- The variants that the kind of an entry holds are those that were read. -/
lemma variants_kindOfRaw (o : Json.Object) (given : List Variant) :
    (kindOfRaw o given).variants = given := by
  cases given with
  | nil =>
    have hvalue := isVariant_kindOfRaw_nil o
    cases hkind : kindOfRaw o [] with
    | variant c vs => exact absurd (hkind ▸ hvalue) (by simp [ParamKind.isVariant])
    | _ => rfl
  | cons v rest => rfl

/-- A declaration is tidy and so are the lists in its variants, at any depth. -/
def IsTidyWithin (p : Param) : Prop :=
  p.IsTidy ∧ ∀ v ∈ p.kind.variants, AreTidyWithin v.params

end Param

/-- A variant has a tidy discriminator, and its parameters are tidy at any depth. -/
def Variant.IsTidyWithin (v : Variant) : Prop :=
  Text.IsTidy v.discriminator ∧ Param.AreTidyWithin v.params

namespace Param

mutual

/-- An entry is read as a tidy declaration. -/
lemma isTidyWithin_of_ofRaw? :
    ∀ (raw : Json) {p : Param}, ofRaw? raw = some p → p.IsTidyWithin
  | .obj members, p, h => by
    have hvariants := isTidyWithin_variantsOfMembers members
    rw [ofRaw?, Option.map_eq_some_iff] at h
    obtain ⟨name, hname, rfl⟩ := h
    refine ⟨⟨Text.isTidy_of_nonBlank? (Json.Object.nonBlank?_of_text? hname), ?_, ?_⟩, ?_⟩
    · intro hdefault
      obtain ⟨-, hnull⟩ := Option.filter_eq_some_iff.1 hdefault
      exact absurd hnull (by simp [Json.isNull])
    · intro controller variants hkind
      obtain ⟨rfl, hne, hcontroller⟩ := of_kindOfRaw_eq_variant hkind
      exact ⟨hcontroller, hne, fun v hv => (hvariants v hv).1⟩
    · intro v hv
      rw [variants_kindOfRaw] at hv
      exact (hvariants v hv).2
  | .null, p, h | .bool _, p, h | .num _, p, h | .str _, p, h | .arr _, p, h => by
    simp [ofRaw?] at h

/-- The variants that the members of an entry hold are tidy. -/
lemma isTidyWithin_variantsOfMembers :
    ∀ (members : List (String × Json)), ∀ v ∈ variantsOfMembers members, v.IsTidyWithin
  | [] => by simp [variantsOfMembers]
  | (name, raw) :: rest => by
    intro v hv
    rw [variantsOfMembers] at hv
    split at hv
    · exact isTidyWithin_variantsOfRaw raw v hv
    · exact isTidyWithin_variantsOfMembers rest v hv

/-- The variants of a raw list are tidy. -/
lemma isTidyWithin_variantsOfRaw :
    ∀ (raw : Json), ∀ v ∈ variantsOfRaw raw, v.IsTidyWithin
  | .arr items => by
    rw [variantsOfRaw]
    exact isTidyWithin_variantsOfItems items
  | .null | .bool _ | .num _ | .str _ | .obj _ => by simp [variantsOfRaw]

/-- The variants that can be read are tidy. -/
lemma isTidyWithin_variantsOfItems :
    ∀ (items : List Json), ∀ v ∈ variantsOfItems items, v.IsTidyWithin
  | [] => by simp [variantsOfItems]
  | raw :: rest => by
    intro v hv
    rw [variantsOfItems, List.mem_append, Option.mem_toList] at hv
    rcases hv with hv | hv
    · exact isTidyWithin_of_variantOfRaw? raw hv
    · exact isTidyWithin_variantsOfItems rest v hv

/-- A variant is read with a tidy discriminator and tidy parameters. -/
lemma isTidyWithin_of_variantOfRaw? :
    ∀ (raw : Json) {v : Variant}, variantOfRaw? raw = some v → v.IsTidyWithin
  | .obj members, v, h => by
    have hparams := areTidyWithin_paramsOfMembers members
    rw [variantOfRaw?, Option.map_eq_some_iff] at h
    obtain ⟨discriminator, hdiscriminator, rfl⟩ := h
    exact ⟨Text.isTidy_of_nonBlank? (Json.Object.nonBlank?_of_text? hdiscriminator), hparams⟩
  | .null, v, h | .bool _, v, h | .num _, v, h | .str _, v, h | .arr _, v, h => by
    simp [variantOfRaw?] at h

/-- The parameters that the members of an entry hold are tidy at any depth. -/
lemma areTidyWithin_paramsOfMembers :
    ∀ (members : List (String × Json)), AreTidyWithin (paramsOfMembers members)
  | [] => areTidyWithin_nil
  | (name, raw) :: rest => by
    rw [paramsOfMembers]
    split
    · exact areTidyWithin_listOfRaw raw
    · exact areTidyWithin_paramsOfMembers rest

/-- **The parameters of a raw list are tidy at any depth**, whatever the list holds: names are
trimmed, not empty and not repeated, there is no default of `null`, and parameters of variants have
some. The readers of entries, variants and lists call each other, and so do the lemmas about them.
-/
theorem areTidyWithin_listOfRaw : ∀ (raw : Json), AreTidyWithin (listOfRaw raw)
  | .arr items => by
    have hentries := isTidyWithin_entriesOfItems items
    rw [listOfRaw]
    refine AreTidy.within ⟨nodup_map_keepFirst _ _, fun p hp => ?_⟩ fun p hp => ?_
    · exact (hentries p (mem_of_mem_keepFirst hp)).1
    · exact (hentries p (mem_of_mem_keepFirst hp)).2
  | .null | .bool _ | .num _ | .str _ | .obj _ => areTidyWithin_nil

/-- The entries that can be read are tidy. -/
lemma isTidyWithin_entriesOfItems :
    ∀ (items : List Json), ∀ p ∈ entriesOfItems items, p.IsTidyWithin
  | [] => by simp [entriesOfItems]
  | raw :: rest => by
    intro p hp
    rw [entriesOfItems, List.mem_append, Option.mem_toList] at hp
    rcases hp with hp | hp
    · exact isTidyWithin_of_ofRaw? raw hp
    · exact isTidyWithin_entriesOfItems rest p hp

end

end Param

/-! ## Actions -/

namespace Action

/-- The type that an entry of a raw section names: the text under `type`, trimmed, if there is more
than white space in it. -/
def typeOfRaw? (entry : Json) : Option String :=
  match entry.member? "type" with
  | some (.str s) => if Text.trim s = "" then none else some (Text.trim s)
  | _ => none

/-- An entry is read exactly if it names a type, and as an action of that type. So it is only the
types that decide which entries are left. -/
lemma map_type_ofRaw? (entry : Json) : (ofRaw? entry).map Action.type = typeOfRaw? entry := by
  cases entry with
  | obj members =>
    have hread : (ofRaw? (.obj members)).map Action.type = Json.Object.text? members ["type"] := by
      simp only [ofRaw?, Json.obj?, Option.bind_eq_bind, Option.bind_some, Option.pure_def]
      cases Json.Object.text? members ["type"] <;> rfl
    rw [hread, typeOfRaw?, Json.member?, Json.obj?, Option.bind_some, Json.Object.text?,
      List.findSome?_singleton]
    cases OrderedMap.get? members "type" with
    | none => rfl
    | some v =>
      cases v with
      | str s =>
        have hblank : Text.isBlank s = true ↔ Text.trim s = "" := Text.isBlank_iff_trim_eq_empty
        simp [Json.str?, Text.nonBlank?, hblank]
      | _ => rfl
  | _ => rfl

/-- The parameters of an action that was read are tidy at any depth. -/
lemma areTidyWithin_params_of_ofRaw? {entry : Json} {a : Action} (h : ofRaw? entry = some a) :
    Param.AreTidyWithin a.params := by
  simp only [ofRaw?, Option.bind_eq_bind, Option.bind_eq_some_iff, Option.pure_def,
    Option.some.injEq] at h
  obtain ⟨o, _, type, _, rfl⟩ := h
  exact Param.areTidyWithin_paramsOfMembers o

/-- **What a raw section of actions becomes.** The actions have tidy types, which are not repeated,
and their parameters are tidy at any depth. Their types are those that entries name, each once and
in the order in which they first come, and each action is what the first entry that names its type
is read as on its own.

**Proof sketch.** An entry that is read is tidy (`Param.areTidyWithin_listOfRaw` goes through the
variants), it is read exactly if it names a type (`map_type_ofRaw?`), and of the entries of a type
the first is kept (`map_keepFirst`, `find?_of_mem_keepFirst`). -/
theorem tidy_and_first_of_listOfRaw (raw : Json) :
    (∀ a ∈ listOfRaw raw, Text.IsTidy a.type ∧
      ∀ params, Param.Nested a.params params → Param.AreTidy params) ∧
    ((listOfRaw raw).map Action.type).Nodup ∧
    (listOfRaw raw).map Action.type
      = ((raw.arr?.getD []).filterMap typeOfRaw?).eraseDups ∧
    ∀ a ∈ listOfRaw raw, ∃ entry,
      (raw.arr?.getD []).find? (fun e => typeOfRaw? e = some a.type) = some entry ∧
        listOfRaw (.arr [entry]) = [a] := by
  refine ⟨fun a ha => ⟨?_, ?_⟩, nodup_map_keepFirst Action.type _, ?_, fun a ha => ?_⟩
  · exact Text.isTidy_of_nonBlank? (nonBlank?_type_of_mem_listOfRaw ha)
  · obtain ⟨entry, _, hentry⟩ := List.mem_filterMap.1 (mem_of_mem_keepFirst ha)
    exact areTidyWithin_params_of_ofRaw? hentry
  · rw [listOfRaw, map_keepFirst, List.map_filterMap]
    simp only [map_type_ofRaw?]
  · have hfirst := find?_of_mem_keepFirst ha
    rw [List.find?_filterMap, Option.bind_eq_some_iff] at hfirst
    obtain ⟨entry, hfound, hread⟩ := hfirst
    refine ⟨entry, ?_, ?_⟩
    · rw [← hfound]
      congr 1
      funext e
      rw [← map_type_ofRaw?]
      cases ofRaw? e <;> simp
    · simp [listOfRaw, Json.arr?, hread, keepFirst]

end Action

end Catalog

end RuleEditor
