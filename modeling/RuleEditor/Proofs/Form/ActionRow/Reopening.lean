import RuleEditor.Proofs.Form.ActionRow.Canonical
import RuleEditor.Proofs.Form.ActionRow.Seeding

/-!
# Reopening stored parameters

The parameters of an action of a known type are opened with the defaults of what is missing, and
saved as far as they are active. They come back exactly if they are settled: each stored value comes
back from its edited form, and nothing is added that was not stored. If no name is declared twice,
these are conditions on each parameter by itself.

## Main definitions

* `Catalog.Param.saved?` — what is saved of a parameter with an edited value.
* `Catalog.Action.opened` — the parameters of the row of a stored action.
* `Catalog.Action.Settled` — the stored parameters that come back.
* `Catalog.Action.IsCanonical` — the same in terms of the single parameters.

## Main results

* `Catalog.Action.storedKnown_opened_perm_iff` — stored parameters come back, in the order of their
  declarations, exactly if they are settled.
* `Catalog.Action.settled_iff_isCanonical` — where no name is declared twice, the settled parameters
  are the canonical ones.
-/

set_option relaxedAutoImplicit false
set_option autoImplicit false

namespace RuleEditor.Catalog

/-! ## Saving -/

/-- What is saved of a parameter with an edited value: its stored form or, if there is none and the
parameter is required, the empty value of its kind. An optional parameter without stored form is
left out, so that nothing tells later whether it was empty or missing. -/
def Param.saved? (p : Param) (value : Option EditValue) : Option Json :=
  match p.storedForm? value with
  | some v => some v
  | none => if p.required then some p.kind.emptyValue else none

/-- What is saved under a name with an edited value: what the last of the declarations of the name
saves that saves anything. Several active parameters may have one name; each of them writes to it in
turn. -/
def Param.savedByLast? (params : List Param) (name : String) (value : Option EditValue) :
    Option Json :=
  params.reverse.findSome? fun p => if p.name = name then p.saved? value else none

/-- What is saved is the stored form, or the empty value of a required parameter. -/
lemma Param.saved?_eq_some_iff {p : Param} {value : Option EditValue} {v : Json} :
    p.saved? value = some v ↔ p.storedForm? value = some v ∨
      p.storedForm? value = none ∧ p.required = true ∧ p.kind.emptyValue = v := by
  unfold saved?
  cases p.storedForm? value with
  | some w => simp
  | none => simp

/-- Nothing is saved of a parameter exactly if there is no stored form and it is not required. -/
lemma Param.saved?_eq_none_iff {p : Param} {value : Option EditValue} :
    p.saved? value = none ↔ p.required = false ∧ p.storedForm? value = none := by
  unfold saved?
  cases p.storedForm? value with
  | some w => simp
  | none => simp

/-- A name under which something is saved has a declaration that saves it. -/
lemma Param.exists_of_savedByLast? {params : List Param} {name : String}
    {value : Option EditValue} {v : Json} (h : savedByLast? params name value = some v) :
    ∃ p ∈ params, p.name = name ∧ p.saved? value = some v := by
  obtain ⟨p, hp, hsaved⟩ := List.exists_of_findSome?_eq_some h
  split_ifs at hsaved with hname
  exact ⟨p, List.mem_reverse.1 hp, hname, hsaved⟩

/-- Nothing is saved under a name exactly if no declaration of the name saves anything. -/
lemma Param.savedByLast?_eq_none_iff {params : List Param} {name : String}
    {value : Option EditValue} :
    savedByLast? params name value = none ↔
      ∀ p ∈ params, p.name = name → p.saved? value = none := by
  simp only [savedByLast?, List.findSome?_eq_none_iff, List.mem_reverse, ite_eq_right_iff]

/-- What is saved under a name that has but one declaration is what that declaration saves. -/
lemma Param.savedByLast?_eq_saved? {params : List Param} {p : Param} (hp : p ∈ params)
    (hunique : ∀ q ∈ params, q.name = p.name → q = p) (value : Option EditValue) :
    savedByLast? params p.name value = p.saved? value := by
  cases h : savedByLast? params p.name value with
  | none => exact (savedByLast?_eq_none_iff.1 h p hp rfl).symm
  | some v =>
    obtain ⟨q, hq, hname, hsaved⟩ := exists_of_savedByLast? h
    rw [← hunique q hq hname, hsaved]

/-- What is stored for a parameter is what is saved of it with the value of its name. -/
lemma Param.storedParam?_eq_saved? (m : Params) (p : Param) :
    ActionRow.storedParam? m p = p.saved? (OrderedMap.get? m p.name) := rfl

/-- The saved parameters of a row hold under each name what the last active declaration saves. -/
lemma Action.get?_storedKnown (a : Action) (m : Params) (name : String) :
    OrderedMap.get? (ActionRow.storedKnown a m) name =
      Param.savedByLast? (a.active m) name (OrderedMap.get? m name) := by
  rw [ActionRow.storedKnown, OrderedMap.get?_ofList, ← List.filterMap_reverse,
    OrderedMap.get?_filterMap, Param.savedByLast?]
  congr 1
  funext p
  split_ifs with hname
  · rw [← hname, Param.storedParam?_eq_saved?]
  · rfl

namespace Action

/-! ## Opening -/

/-- The parameters of the row of a stored action: the defaults of the action with the stored values
laid over them, each in its edited form, and the defaults of what these values make active. -/
def opened (a : Action) (stored : Json.Object) : Params := (ActionRow.ofKnown "" a stored).params

/-- A stored value is opened in its edited form. -/
lemma get?_opened_of_eq_some {a : Action} {stored : Json.Object}
    (hd : OrderedMap.Distinct stored) {name : String} {v : Json}
    (h : OrderedMap.get? stored name = some v) :
    OrderedMap.get? (a.opened stored) name = some (ActionRow.editFormOf a name v) := by
  refine (Params.seeds_seedVariants a.params _).get?_of_eq_some ?_
  rw [OrderedMap.get?_insertMany, ← List.map_reverse, OrderedMap.get?_map, hd.get?_reverse, h,
    Option.map_some, Option.some_or]

/-- A name without a stored value keeps the value that it has before the stored values are laid over
the defaults. -/
lemma get?_insertMany_editFormOf {a : Action} {stored : Json.Object} {name : String} (m : Params)
    (h : OrderedMap.get? stored name = none) :
    OrderedMap.get? (OrderedMap.insertMany m
      (stored.map fun (name, v) => (name, ActionRow.editFormOf a name v))) name =
      OrderedMap.get? m name := by
  have hreverse : OrderedMap.get? stored.reverse name = none := by
    rw [OrderedMap.get?_eq_none_iff] at h ⊢
    simpa [OrderedMap.keys] using h
  rw [OrderedMap.get?_insertMany, ← List.map_reverse, OrderedMap.get?_map, hreverse,
    Option.map_none, Option.none_or]

/-- Where no value is stored, the row has the default of a declaration of the name, if it has any
value. -/
lemma get?_opened_of_eq_none {a : Action} {stored : Json.Object} {name : String}
    (h : OrderedMap.get? stored name = none) :
    OrderedMap.get? (a.opened stored) name = none ∨
      ∃ p ∈ Param.declared a.params, p.name = name ∧
        OrderedMap.get? (a.opened stored) name = p.defaultValue? := by
  have hlaid := get?_insertMany_editFormOf (a := a) (Params.seedDefaults a.params []) h
  rcases Params.seeds_seedVariants a.params (OrderedMap.insertMany
    (Params.seedDefaults a.params []) _) name with hsame | ⟨-, added⟩
  · rcases Params.seeds_seedDefaults a.params [] name with hnone | ⟨-, p, hp, hname, hdefault⟩
    · exact .inl (hsame.trans (hlaid.trans hnone))
    · exact .inr ⟨p, Params.mem_declared_of_mem hp, hname, hsame.trans (hlaid.trans hdefault)⟩
  · exact .inr added

/-! ## What comes back -/

/-- Stored parameters that come back if they are opened and saved: what the last active declaration
of each name makes of the edited form of the stored value is that value, and of active parameters
that are not stored nothing is saved.

The condition is exact for every catalog (`storedKnown_opened_perm_iff`). It speaks of the row that
is opened, because the stored values themselves decide which declarations are active. Where no name
is declared twice it comes down to `IsCanonical`, which looks at each parameter by itself. -/
structure Settled (a : Action) (stored : Json.Object) : Prop where
  /-- Each stored value is saved as it was stored. -/
  kept : ∀ name v, OrderedMap.get? stored name = some v →
    Param.savedByLast? (a.active (a.opened stored)) name (some (ActionRow.editFormOf a name v)) =
      some v
  /-- Nothing else is saved. -/
  added : ∀ p ∈ a.active (a.opened stored), OrderedMap.get? stored p.name = none →
    p.saved? (OrderedMap.get? (a.opened stored) p.name) = none

/-- **Stored parameters come back exactly if they are settled.** They come back in the order of
their declarations, which need not be the order in which they were stored.

**Proof sketch.** What is saved under a name is what the last active declaration of the name makes
of the value in the row (`get?_storedKnown`). For a stored name that value is the edited form of the
stored one, and the saved value has to be the stored one; for any other name nothing may be saved.
-/
theorem storedKnown_opened_perm_iff {a : Action} {stored : Json.Object}
    (hd : OrderedMap.Distinct stored) :
    (ActionRow.storedKnown a (a.opened stored)).Perm stored ↔ a.Settled stored := by
  have hsaved : OrderedMap.Distinct (ActionRow.storedKnown a (a.opened stored)) :=
    OrderedMap.distinct_ofList _
  rw [OrderedMap.perm_iff_get? hsaved hd]
  constructor
  · intro h
    constructor
    · intro name v hv
      rw [← get?_opened_of_eq_some hd hv, ← get?_storedKnown, h name, hv]
    · intro p hp hnone
      have hsaved := h p.name
      rw [get?_storedKnown, hnone, Param.savedByLast?_eq_none_iff] at hsaved
      exact hsaved p hp rfl
  · intro h name
    rw [get?_storedKnown]
    cases hstored : OrderedMap.get? stored name with
    | some v => rw [get?_opened_of_eq_some hd hstored, h.kept name v hstored]
    | none =>
      rw [Param.savedByLast?_eq_none_iff]
      rintro p hp rfl
      exact h.added p hp hstored

/-! ## Names that are declared once -/

/-- Stored parameters of which each by itself comes back: they are active, a stored value is
canonical or the empty value of a required parameter, and a parameter that is missing is optional
and has a value in the row that saves nothing.

So three things keep stored parameters from coming back: a value that no selected variant declares,
a value in place of which another one is saved, and a parameter that was missing and for which its
default or, if it is required, its empty value is saved. -/
structure IsCanonical (a : Action) (stored : Json.Object) : Prop where
  /-- All stored parameters are active. -/
  active : ∀ name ∈ OrderedMap.keys stored, ∃ p ∈ a.active (a.opened stored), p.name = name
  /-- The stored values are canonical, or empty where a value is required. -/
  canonical : ∀ p ∈ a.active (a.opened stored), ∀ v, OrderedMap.get? stored p.name = some v →
    p.kind.IsCanonical v ∨ p.required = true ∧ v = p.kind.emptyValue
  /-- What is not stored is optional and stays away. -/
  missing : ∀ p ∈ a.active (a.opened stored), OrderedMap.get? stored p.name = none →
    p.required = false ∧ p.storedForm? (OrderedMap.get? (a.opened stored) p.name) = none

/-- The empty value of a kind other than that of switches has no stored form once it is opened. -/
lemma storedForm?_editForm_emptyValue {p : Param} (hkind : p.kind ≠ .boolean) :
    p.storedForm? (some (p.editForm p.kind.emptyValue)) = none := by
  obtain ⟨info, kind⟩ := p
  cases kind <;> first
    | exact absurd rfl hkind
    | rfl

/-- A stored value is saved as it was stored exactly if it is canonical, or empty where a value is
required. -/
lemma saved?_editForm_iff {p : Param} {v : Json} :
    p.saved? (some (p.editForm v)) = some v ↔
      p.kind.IsCanonical v ∨ p.required = true ∧ v = p.kind.emptyValue := by
  rw [Param.saved?_eq_some_iff, Param.storedForm?_editForm_iff]
  constructor
  · rintro (hcanonical | ⟨-, hrequired, rfl⟩)
    · exact .inl hcanonical
    · exact .inr ⟨hrequired, rfl⟩
  · rintro (hcanonical | ⟨hrequired, rfl⟩)
    · exact .inl hcanonical
    · by_cases hkind : p.kind = .boolean
      · refine .inl ?_
        rw [hkind]
        exact rfl
      · exact .inr ⟨storedForm?_editForm_emptyValue hkind, hrequired, rfl⟩

/-- A name with one declaration is found as that declaration. -/
lemma findParam?_of_once {a : Action} {p : Param} (hp : p ∈ Param.declared a.params)
    (honce : ∀ q ∈ Param.declared a.params, q.name = p.name → q = p) :
    a.findParam? p.name = some p := by
  rw [findParam?, Param.findInList?_eq_find?]
  cases h : (Param.declared a.params).find? (·.name = p.name) with
  | none => exact absurd (List.find?_eq_none.1 h p hp) (by simp)
  | some q =>
    have hname : q.name = p.name := by simpa using List.find?_some h
    rw [honce q (List.mem_of_find?_eq_some h) hname]

section DeclaredOnce

variable {a : Action} {stored : Json.Object}
  (hnames : ((Param.declared a.params).map fun p => p.name).Nodup)

include hnames

/-- Where no name is declared twice, a declaration is found by its name. -/
lemma findParam?_of_mem_declared {p : Param} (hp : p ∈ Param.declared a.params) :
    a.findParam? p.name = some p :=
  findParam?_of_once hp fun _ hq hname => List.inj_on_of_nodup_map hnames hq hp hname

/-- Where no name is declared twice, active parameters of one name are the same. -/
lemma eq_of_mem_active {m : Params} {p q : Param} (hp : p ∈ a.active m) (hq : q ∈ a.active m)
    (hname : q.name = p.name) : q = p :=
  List.inj_on_of_nodup_map hnames (Param.mem_declared_of_mem_active m q _ hq)
    (Param.mem_declared_of_mem_active m p _ hp) hname

/-- Where no name is declared twice, a stored value of an active parameter is edited as one of that
parameter. -/
lemma editFormOf_of_mem_active {m : Params} {p : Param} (hp : p ∈ a.active m) (v : Json) :
    ActionRow.editFormOf a p.name v = p.editForm v := by
  rw [ActionRow.editFormOf,
    findParam?_of_mem_declared hnames (Param.mem_declared_of_mem_active m p _ hp)]

/-- **Where no name is declared twice, the settled parameters are the canonical ones.** The last
active declaration of a name is then the only one, and it is also the one that looking up the name
finds, so that opening and saving a value go by the same kind. -/
theorem settled_iff_isCanonical : a.Settled stored ↔ a.IsCanonical stored := by
  constructor
  · intro h
    refine ⟨fun name hname => ?_, fun p hp v hv => ?_, fun p hp hnone => ?_⟩
    · obtain ⟨v, hv⟩ := Option.ne_none_iff_exists'.1
        (OrderedMap.get?_eq_none_iff.not_left.2 hname)
      obtain ⟨p, hp, hpname, -⟩ := Param.exists_of_savedByLast? (h.kept name v hv)
      exact ⟨p, hp, hpname⟩
    · obtain ⟨q, hq, hqname, hsaved⟩ := Param.exists_of_savedByLast? (h.kept p.name v hv)
      obtain rfl := eq_of_mem_active hnames hp hq hqname
      rw [editFormOf_of_mem_active hnames hp] at hsaved
      exact saved?_editForm_iff.1 hsaved
    · exact Param.saved?_eq_none_iff.1 (h.added p hp hnone)
  · intro h
    refine ⟨fun name v hv => ?_, fun p hp hnone => ?_⟩
    · have hname : name ∈ OrderedMap.keys stored := by
        by_contra hnot
        rw [OrderedMap.get?_eq_none hnot] at hv
        exact absurd hv (by simp)
      obtain ⟨p, hp, rfl⟩ := h.active name hname
      rw [editFormOf_of_mem_active hnames hp]
      rw [Param.savedByLast?_eq_saved? hp fun q hq => eq_of_mem_active hnames hp hq]
      exact saved?_editForm_iff.2 (h.canonical p hp v hv)
    · exact Param.saved?_eq_none_iff.2 (h.missing p hp hnone)

/-- Where no name is declared twice, a parameter whose default saves nothing has a value in the row
that saves nothing. -/
lemma storedForm?_opened {p : Param} (hp : p ∈ a.active (a.opened stored))
    (hnone : OrderedMap.get? stored p.name = none)
    (hdefault : p.storedForm? p.defaultValue? = none) :
    p.storedForm? (OrderedMap.get? (a.opened stored) p.name) = none := by
  rcases get?_opened_of_eq_none (a := a) hnone with h | ⟨q, hq, hname, h⟩
  · rw [h]
    unfold Param.storedForm? at hdefault ⊢
    split
    · next hkind => simp [hkind] at hdefault
    · rfl
  · have hdeclared := Param.mem_declared_of_mem_active _ p _ hp
    obtain rfl := List.inj_on_of_nodup_map hnames hq hdeclared hname
    rw [h, hdefault]

end DeclaredOnce

end Action

end RuleEditor.Catalog
