import RuleEditor.Json.Shape
import RuleEditor.Proofs.OrderedMap

/-!
# Values of texts

In the tree of a text, an object may repeat a name. The values that are read of such a tree have no
object that does, at any depth, whether all of the tree is read or only what has a place in a
record.

## Main results

* `Json.Raw.wellFormed_of_value?`, `Json.Raw.wellFormed_of_shaped?` — the value of a tree is
  well-formed.
* `Json.wellFormed_of_parse?`, `Json.wellFormed_of_parseAs?` — so is the value of a text.
-/

set_option relaxedAutoImplicit false
set_option autoImplicit false

namespace RuleEditor.Json

/-- Items are well-formed one by one. -/
lemma wellFormedItems_iff (items : List Json) :
    WellFormedItems items ↔ ∀ v ∈ items, v.WellFormed := by
  induction items with
  | nil => simp [WellFormedItems]
  | cons v rest ih => simp [WellFormedItems, ih]

/-- The values of members are well-formed one by one. -/
lemma wellFormedMembers_iff (members : List (String × Json)) :
    WellFormedMembers members ↔ ∀ member ∈ members, member.2.WellFormed := by
  induction members with
  | nil => simp [WellFormedMembers]
  | cons member rest ih => simp [WellFormedMembers, ih]

/-- A list of well-formed values is well-formed. -/
lemma wellFormed_arr {items : List Json} (h : ∀ v ∈ items, v.WellFormed) :
    (arr items).WellFormed :=
  (wellFormedItems_iff items).2 h

/-- An object is well-formed if it is put together from well-formed values, entry by entry. Repeated
names do no harm, since the map that is made of the entries has none. -/
lemma wellFormed_obj_ofList {members : List (String × Json)}
    (h : ∀ member ∈ members, member.2.WellFormed) :
    (obj (OrderedMap.ofList members)).WellFormed := by
  rw [WellFormed, wellFormedMembers_iff]
  exact ⟨OrderedMap.distinct_ofList members,
    fun member hmember => h member (OrderedMap.mem_of_mem_ofList hmember)⟩

namespace Raw

/-! ## Trees that are read as values -/

mutual

/-- The value of a tree is well-formed. -/
theorem wellFormed_of_value? {depth : Nat} {v : Json} :
    ∀ raw : Raw, value? depth raw = some v → v.WellFormed
  | .null, h => by rw [← Option.some.inj h]; trivial
  | .bool b, h => by rw [← Option.some.inj h]; trivial
  | .num n, h => by
    obtain ⟨m, -, rfl⟩ := Option.map_eq_some_iff.1 h
    trivial
  | .str s, h => by
    obtain ⟨t, -, rfl⟩ := Option.map_eq_some_iff.1 h
    trivial
  | .arr items, h => by
    cases depth with
    | zero => simp [value?] at h
    | succ depth =>
      obtain ⟨vs, hvs, rfl⟩ := Option.map_eq_some_iff.1 h
      exact wellFormed_arr (wellFormed_of_itemValues? items hvs)
  | .obj members, h => by
    cases depth with
    | zero => simp [value?] at h
    | succ depth =>
      obtain ⟨ms, hms, rfl⟩ := Option.map_eq_some_iff.1 h
      exact wellFormed_obj_ofList (wellFormed_of_memberValues? members hms)
  | .fault, h => by simp [value?] at h

/-- The values of items are well-formed. -/
lemma wellFormed_of_itemValues? {depth : Nat} {vs : List Json} :
    ∀ items : List Raw, itemValues? depth items = some vs → ∀ v ∈ vs, v.WellFormed
  | [], h => by
    obtain rfl := Option.some.inj h
    simp
  | raw :: rest, h => by
    simp only [itemValues?, Option.bind_eq_bind, Option.bind_eq_some_iff, Option.pure_def,
      Option.some.injEq] at h
    obtain ⟨v, hv, others, hothers, rfl⟩ := h
    exact List.forall_mem_cons.2
      ⟨wellFormed_of_value? raw hv, wellFormed_of_itemValues? rest hothers⟩

/-- The values of members are well-formed. -/
lemma wellFormed_of_memberValues? {depth : Nat} {ms : List (String × Json)} :
    ∀ members : List (Option String × Raw), memberValues? depth members = some ms →
      ∀ m ∈ ms, m.2.WellFormed
  | [], h => by
    obtain rfl := Option.some.inj h
    simp
  | (name, raw) :: rest, h => by
    simp only [memberValues?, Option.bind_eq_bind, Option.bind_eq_some_iff, Option.pure_def,
      Option.some.injEq] at h
    obtain ⟨name, -, v, hv, others, hothers, rfl⟩ := h
    exact List.forall_mem_cons.2
      ⟨wellFormed_of_value? raw hv, wellFormed_of_memberValues? rest hothers⟩

end

/-! ## Trees that are read as shapes -/

mutual

/-- The value of a tree that is read as a shape is well-formed. -/
theorem wellFormed_of_shaped? {depth : Nat} {shape : Shape} {v : Json} :
    ∀ raw : Raw, shaped? depth shape raw = some v → v.WellFormed
  | .arr items, h => by
    cases depth with
    | zero => simp [shaped?] at h
    | succ depth =>
      -- one case for each shape that has items of its own, and one for all others
      simp only [shaped?] at h
      split at h
      all_goals
        obtain ⟨vs, hvs, rfl⟩ := Option.map_eq_some_iff.1 h
        apply wellFormed_arr
      · exact wellFormed_of_shapedFields? items hvs
      · exact wellFormed_of_shapedFields? items hvs
      · exact wellFormed_of_shapedItems? items hvs
      · exact wellFormed_of_itemValues? items hvs
  | .obj members, h => by
    cases depth with
    | zero => simp [shaped?] at h
    | succ depth =>
      simp only [shaped?] at h
      split at h
      · obtain ⟨ms, hms, rfl⟩ := Option.map_eq_some_iff.1 h
        exact wellFormed_obj_ofList (wellFormed_of_shapedMembers? members hms)
      · simp at h
  | .null, h => wellFormed_of_value? .null (show value? depth .null = some v from h)
  | .bool b, h => wellFormed_of_value? (.bool b) (show value? depth (.bool b) = some v from h)
  | .num n, h => wellFormed_of_value? (.num n) (show value? depth (.num n) = some v from h)
  | .str s, h => wellFormed_of_value? (.str s) (show value? depth (.str s) = some v from h)
  | .fault, h => wellFormed_of_value? .fault (show value? depth .fault = some v from h)

/-- The values of items of one shape are well-formed. -/
lemma wellFormed_of_shapedItems? {depth : Nat} {shape : Shape} {vs : List Json} :
    ∀ items : List Raw, shapedItems? depth shape items = some vs → ∀ v ∈ vs, v.WellFormed
  | [], h => by
    obtain rfl := Option.some.inj h
    simp
  | raw :: rest, h => by
    simp only [shapedItems?, Option.bind_eq_bind, Option.bind_eq_some_iff, Option.pure_def,
      Option.some.injEq] at h
    obtain ⟨v, hv, others, hothers, rfl⟩ := h
    exact List.forall_mem_cons.2
      ⟨wellFormed_of_shaped? raw hv, wellFormed_of_shapedItems? rest hothers⟩

/-- The values of the fields of a record that is given as a list are well-formed. -/
lemma wellFormed_of_shapedFields? {depth : Nat} {fields : List (String × Shape)}
    {vs : List Json} :
    ∀ items : List Raw, shapedFields? depth fields items = some vs → ∀ v ∈ vs, v.WellFormed
  | [], h => by
    obtain rfl := Option.some.inj h
    simp
  | raw :: rest, h => by
    cases fields with
    | nil => simp [shapedFields?] at h
    | cons field fields =>
      simp only [shapedFields?, Option.bind_eq_bind, Option.bind_eq_some_iff, Option.pure_def,
        Option.some.injEq] at h
      obtain ⟨v, hv, others, hothers, rfl⟩ := h
      exact List.forall_mem_cons.2
        ⟨wellFormed_of_shaped? raw hv, wellFormed_of_shapedFields? rest hothers⟩

/-- The values of the members of an object that is read as a shape are well-formed; a member that is
passed over is not among them. -/
lemma wellFormed_of_shapedMembers? {depth : Nat} {shape : Shape} {ms : List (String × Json)} :
    ∀ members : List (Option String × Raw), shapedMembers? depth shape members = some ms →
      ∀ m ∈ ms, m.2.WellFormed
  | [], h => by
    obtain rfl := Option.some.inj h
    simp
  | (name, raw) :: rest, h => by
    simp only [shapedMembers?, Option.bind_eq_bind, Option.bind_eq_some_iff] at h
    obtain ⟨name, -, others, hothers, h⟩ := h
    have hrest := wellFormed_of_shapedMembers? rest hothers
    split at h
    · rw [← Option.some.inj h]
      exact hrest
    · simp only [Option.bind_eq_some_iff, Option.pure_def, Option.some.injEq] at h
      obtain ⟨v, hv, rfl⟩ := h
      exact List.forall_mem_cons.2 ⟨wellFormed_of_shaped? raw hv, hrest⟩

end

end Raw

/-! ## Texts -/

/-- The value of a text is well-formed, however often the text repeats a name. -/
theorem wellFormed_of_parse? {s : String} {v : Json} (h : parse? s = some v) : v.WellFormed := by
  obtain ⟨raw, -, hraw⟩ := Option.bind_eq_some_iff.1 h
  exact Raw.wellFormed_of_value? raw hraw

/-- The value of a text that is read as a shape is well-formed; what is passed over is no part of
it. -/
theorem wellFormed_of_parseAs? {shape : Shape} {s : String} {v : Json}
    (h : parseAs? shape s = some v) : v.WellFormed := by
  obtain ⟨raw, -, hraw⟩ := Option.bind_eq_some_iff.1 h
  exact Raw.wellFormed_of_shaped? raw hraw

end RuleEditor.Json
