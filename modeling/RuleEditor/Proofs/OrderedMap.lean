import Mathlib.Data.List.Nodup
import RuleEditor.OrderedMap

/-!
# What ordered maps hold

A map without repeated names is given by the values of its names, up to the order of its entries. A
list of entries that is written into a map counts by the last entry of each name.

## Main definitions

* `OrderedMap.eraseMany` — removes a list of names.
* `OrderedMap.KeepsOrder` — one map has the names of a kind that another one has, in order.

## Main results

* `OrderedMap.get?_insertMany` — what is read after a list of entries was written.
* `OrderedMap.perm_iff_get?` — maps of the same values differ in order alone.
* `OrderedMap.ofList_eq_self` — entries without repeated names are a map as they are.
* `OrderedMap.get?_eraseMany` — what is read after a list of names was removed.
* `OrderedMap.keepsOrder_insert`, `OrderedMap.keepsOrder_erase` — names that stay do so in order.
-/

set_option relaxedAutoImplicit false
set_option autoImplicit false

namespace RuleEditor.OrderedMap

variable {α β : Type}

/-! ## Reading -/

/-- A name has a value exactly if it occurs. -/
lemma get?_eq_none_iff {m : OrderedMap α} {name : String} :
    get? m name = none ↔ name ∉ keys m := by
  constructor
  · intro hnone hmem
    induction m with
    | nil => exact absurd hmem List.not_mem_nil
    | cons entry rest ih =>
      obtain ⟨key, value⟩ := entry
      by_cases hkey : key = name
      · simp [get?, hkey] at hnone
      · rcases List.mem_cons.1 hmem with h | h
        · exact hkey h.symm
        · exact ih (by simpa [get?, hkey] using hnone) h
  · exact get?_eq_none

/-- The names that occur are those that have a value. -/
lemma mem_keys_iff_contains {m : OrderedMap α} {name : String} :
    name ∈ keys m ↔ contains m name = true := by
  rw [contains, Option.isSome_iff_ne_none, ne_eq, get?_eq_none_iff, not_not]

/-- The value of a name stands in an entry of the name. -/
lemma mem_of_get? {m : OrderedMap α} {name : String} {value : α}
    (h : get? m name = some value) : (name, value) ∈ m := by
  induction m with
  | nil => exact absurd h (by simp)
  | cons entry rest ih =>
    obtain ⟨key, old⟩ := entry
    by_cases hkey : key = name
    · obtain rfl : old = value := by simpa [get?, hkey] using h
      rw [hkey]
      exact List.mem_cons_self
    · exact List.mem_cons_of_mem _ (ih (by simpa [get?, hkey] using h))

/-- In a map without repeated names each entry holds the value of its name, so that what is read
does not depend on the order of the entries. -/
lemma get?_eq_some_iff {m : OrderedMap α} (hd : Distinct m) {name : String} {value : α} :
    get? m name = some value ↔ (name, value) ∈ m := by
  refine ⟨mem_of_get?, fun hmem => ?_⟩
  induction m with
  | nil => exact absurd hmem List.not_mem_nil
  | cons entry rest ih =>
    obtain ⟨key, old⟩ := entry
    obtain ⟨hkey, hrest⟩ : key ∉ keys rest ∧ Distinct rest := by
      simpa [Distinct, keys] using hd
    rcases List.mem_cons.1 hmem with h | h
    · obtain ⟨rfl, rfl⟩ := Prod.mk.inj h
      simp [get?]
    · have hne : ¬key = name := by
        rintro rfl
        exact hkey (List.mem_map_of_mem h)
      simpa [get?, hne] using ih hrest h

/-- Of two lists of entries the first counts, as far as it has the name; what the second says of it
is never read. -/
lemma get?_append (m m' : OrderedMap α) (name : String) :
    get? (m ++ m') name = (get? m name).or (get? m' name) := by
  induction m with
  | nil => simp
  | cons entry rest ih =>
    obtain ⟨key, value⟩ := entry
    by_cases hkey : key = name <;> simp [get?, hkey, ih]

/-- A name that is kept has its value among the entries whose names are kept. -/
lemma get?_filter {keep : String → Bool} {name : String} (h : keep name = true)
    (m : OrderedMap α) : get? (m.filter fun entry => keep entry.1) name = get? m name := by
  induction m with
  | nil => rfl
  | cons entry rest ih =>
    obtain ⟨key, value⟩ := entry
    by_cases hkey : key = name
    · simp [hkey, h, get?]
    · cases hkeep : keep key <;> simp [hkeep, get?, hkey, ih]

/-- Reading from entries whose values were converted is converting what is read. -/
lemma get?_map (m : OrderedMap α) (f : String → α → β) (name : String) :
    get? (m.map fun (key, value) => (key, f key value)) name = (get? m name).map (f name) := by
  induction m with
  | nil => rfl
  | cons entry rest ih =>
    obtain ⟨key, value⟩ := entry
    by_cases hkey : key = name
    · subst hkey
      simp [get?]
    · simp [get?, hkey, ih]

/-- Reading a name from entries that are made of a list is searching that list. The names may
repeat: the first element that has the name and gives a value is found. -/
lemma get?_filterMap (items : List β) (nameOf : β → String) (f : β → Option α) (name : String) :
    get? (items.filterMap fun b => (f b).map (nameOf b, ·)) name =
      items.findSome? fun b => if nameOf b = name then f b else none := by
  induction items with
  | nil => rfl
  | cons b rest ih =>
    cases hb : f b with
    | none => simp [hb, ih]
    | some value => by_cases hname : nameOf b = name <;> simp [get?, hb, hname, ih]

/-- Reading from a map without repeated names of which each entry was converted or left out is
converting what is read. -/
lemma Distinct.get?_filterMap {m : OrderedMap α} (hd : Distinct m) (f : String → α → Option β)
    (name : String) :
    get? (m.filterMap fun (key, value) => (f key value).map (key, ·)) name =
      (get? m name).bind (f name) := by
  induction m with
  | nil => rfl
  | cons entry rest ih =>
    obtain ⟨key, value⟩ := entry
    obtain ⟨hkey, hrest⟩ : key ∉ keys rest ∧ Distinct rest := by
      simpa [Distinct, keys] using hd
    by_cases hname : key = name
    · subst hname
      -- the name does not occur again, should its entry be left out
      have hnone : get? rest key = none := get?_eq_none hkey
      cases hf : f key value with
      | none => simpa [hf, get?, hnone] using ih hrest
      | some w => simp [hf, get?]
    · cases hf : f key value with
      | none => simpa [hf, get?, hname] using ih hrest
      | some w => simpa [hf, get?, hname] using ih hrest

/-- Converting entries one by one, or leaving them out, repeats no name. -/
lemma Distinct.filterMap {m : OrderedMap α} (hd : Distinct m) (f : String → α → Option β) :
    Distinct (m.filterMap fun (key, value) => (f key value).map (key, ·)) := by
  induction m with
  | nil => exact hd
  | cons entry rest ih =>
    obtain ⟨key, value⟩ := entry
    obtain ⟨hkey, hrest⟩ : key ∉ keys rest ∧ Distinct rest := by
      simpa [Distinct, keys] using hd
    cases hf : f key value with
    | none => simpa [hf] using ih hrest
    | some w =>
      have hnew : key ∉ keys (rest.filterMap fun (key, value) => (f key value).map (key, ·)) := by
        rw [← get?_eq_none_iff, hrest.get?_filterMap, get?_eq_none hkey, Option.bind_none]
      rw [List.filterMap_cons_some (b := (key, w)) (by simp [hf])]
      exact List.nodup_cons.2 ⟨hnew, ih hrest⟩

/-- Removing a name touches no other name. -/
lemma get?_erase_of_ne {name other : String} (h : name ≠ other) (m : OrderedMap α) :
    get? (erase m name) other = get? m other := by
  induction m with
  | nil => rfl
  | cons entry rest ih =>
    obtain ⟨key, value⟩ := entry
    by_cases hkey : key = name
    · have hne : ¬key = other := fun e => h (hkey.symm.trans e)
      rw [erase, if_pos hkey, get?, if_neg hne]
    · rw [erase, if_neg hkey, get?, get?, ih]

/-! ## Writing lists of entries -/

/-- After a list of entries was written, a name has the value of its last entry, and its old value
if there is none. Looking for the last entry is looking for the first in the reversed list. -/
theorem get?_insertMany (m : OrderedMap α) (entries : List (String × α)) (name : String) :
    get? (insertMany m entries) name = (get? entries.reverse name).or (get? m name) := by
  induction entries generalizing m with
  | nil => simp [insertMany]
  | cons entry rest ih =>
    obtain ⟨key, value⟩ := entry
    have hstep : insertMany m ((key, value) :: rest) = insertMany (insert m key value) rest := rfl
    rw [hstep, ih, List.reverse_cons, get?_append, get?_insert, Option.or_assoc]
    congr 1
    by_cases hkey : key = name <;> simp [get?, hkey]

/-- Two lists of entries are written one after the other as their concatenation is. -/
lemma insertMany_append (m : OrderedMap α) (entries entries' : List (String × α)) :
    insertMany m (entries ++ entries') = insertMany (insertMany m entries) entries' :=
  List.foldl_append

/-- A name with a value has one after a list of entries was written. -/
lemma contains_insertMany {m : OrderedMap α} {name : String} (h : contains m name = true)
    (entries : List (String × α)) : contains (insertMany m entries) name = true := by
  have hvalue : (get? m name).isSome = true := h
  rw [contains, get?_insertMany, Option.isSome_or, hvalue, Bool.or_true]

/-- The names after one was written are those from before and that one. -/
lemma mem_keys_insert {m : OrderedMap α} {name other : String} {value : α} :
    other ∈ keys (insert m name value) ↔ other ∈ keys m ∨ other = name := by
  rw [keys_insert]
  split_ifs with hname
  · refine ⟨.inl, fun h => h.elim id ?_⟩
    rintro rfl
    exact hname
  · simp

/-- The names after a list of entries was written are those from before and those of the entries. -/
lemma mem_keys_insertMany {m : OrderedMap α} {entries : List (String × α)} {name : String} :
    name ∈ keys (insertMany m entries) ↔ name ∈ keys m ∨ name ∈ keys entries := by
  induction entries generalizing m with
  | nil => simp [insertMany, keys]
  | cons entry rest ih =>
    have hstep : insertMany m (entry :: rest) = insertMany (insert m entry.1 entry.2) rest := rfl
    rw [hstep, ih, mem_keys_insert, or_assoc]
    simp [keys]

/-- The map of a list of entries holds the last value of each name. -/
lemma get?_ofList (entries : List (String × α)) (name : String) :
    get? (ofList entries) name = get? entries.reverse name := by
  rw [ofList, get?_insertMany, get?_nil, Option.or_none]

/-- The map of a list of entries has no entries but those: the value that a name ends up with was
given for that name. -/
lemma mem_of_mem_ofList {entries : List (String × α)} {entry : String × α}
    (h : entry ∈ ofList entries) : entry ∈ entries := by
  obtain ⟨name, value⟩ := entry
  rw [← get?_eq_some_iff (distinct_ofList entries), get?_ofList] at h
  exact List.mem_reverse.1 (mem_of_get? h)

/-- The order of entries without repeated names does not matter for what is read. -/
lemma Distinct.get?_reverse {m : OrderedMap α} (hd : Distinct m) (name : String) :
    get? m.reverse name = get? m name := by
  have hd' : Distinct m.reverse := by
    rw [Distinct, keys, List.map_reverse, List.nodup_reverse]
    exact hd
  ext value
  rw [get?_eq_some_iff hd', get?_eq_some_iff hd, List.mem_reverse]

/-- Writing a name that is new appends it. -/
lemma insert_eq_append {m : OrderedMap α} {name : String} (value : α) (h : name ∉ keys m) :
    insert m name value = m ++ [(name, value)] := by
  induction m with
  | nil => rfl
  | cons entry rest ih =>
    obtain ⟨key, old⟩ := entry
    obtain ⟨hkey, hrest⟩ : ¬name = key ∧ name ∉ keys rest := by simpa [keys] using h
    have hne : ¬key = name := fun e => hkey e.symm
    rw [insert, if_neg hne, ih hrest, List.cons_append]

/-- Writing names that are new, and distinct among themselves, appends them in their order. -/
lemma insertMany_eq_append {m entries : OrderedMap α} (hd : Distinct (m ++ entries)) :
    insertMany m entries = m ++ entries := by
  induction entries generalizing m with
  | nil => simp [insertMany]
  | cons entry rest ih =>
    obtain ⟨key, value⟩ := entry
    have hnew : key ∉ keys m := by
      intro hmem
      rw [Distinct, keys, List.map_append, List.nodup_append] at hd
      exact hd.2.2 key hmem key List.mem_cons_self rfl
    have hinsert := insert_eq_append value hnew
    have hstep : insertMany m ((key, value) :: rest) = insertMany (insert m key value) rest := rfl
    rw [hstep, hinsert, ih (by simpa using hd), List.append_assoc, List.singleton_append]

/-- Entries without repeated names are a map as they are, in the order in which they stand. It is
the step that lets an object come back from its members unchanged. -/
theorem ofList_eq_self {entries : OrderedMap α} (hd : Distinct entries) :
    ofList entries = entries :=
  insertMany_eq_append hd

/-! ## Removing lists of names -/

/-- Removes a list of names, one after the other. Names that do not occur are passed over, so that
the list may hold more than the map. -/
def eraseMany (m : OrderedMap α) (names : List String) : OrderedMap α := names.foldl erase m

/-- Removing a list of names repeats no name. -/
lemma Distinct.eraseMany {m : OrderedMap α} (h : Distinct m) (names : List String) :
    Distinct (OrderedMap.eraseMany m names) := by
  induction names generalizing m with
  | nil => exact h
  | cons name rest ih => exact ih (h.erase name)

/-- After a list of names was removed, these have no value, and no other name is touched. It does
not matter whether a name was there or stands in the list twice. -/
theorem get?_eraseMany {m : OrderedMap α} (hd : Distinct m) (names : List String) (name : String) :
    get? (eraseMany m names) name = if name ∈ names then none else get? m name := by
  induction names generalizing m with
  | nil => rfl
  | cons other rest ih =>
    have hstep : eraseMany m (other :: rest) = eraseMany (erase m other) rest := rfl
    rw [hstep, ih (hd.erase other), get?_erase hd]
    by_cases hrest : name ∈ rest
    · simp [hrest]
    · by_cases hother : other = name
      · simp [hother]
      · have hne : ¬name = other := fun e => hother e.symm
        simp [hrest, hother, hne]

/-! ## Order -/

/-- If the first of two maps has all names of a kind, the second has them too, in the same order and
without any others of the kind. An edit that writes into a row keeps the order of the fields in this
sense: once all of them are there, none moves. -/
def KeepsOrder (kind : String → Bool) (m m' : OrderedMap α) : Prop :=
  (∀ name, kind name = true → name ∈ keys m) → (keys m').filter kind = (keys m).filter kind

section KeepsOrder

variable {kind : String → Bool} {m m' m'' : OrderedMap α}

/-- A map keeps its own order. -/
lemma KeepsOrder.refl (kind : String → Bool) (m : OrderedMap α) : KeepsOrder kind m m :=
  fun _ => rfl

/-- Keeping the order carries over from step to step, since a map that has the names of the kind
still has them after a step that keeps their order. -/
lemma KeepsOrder.trans (h : KeepsOrder kind m m') (h' : KeepsOrder kind m' m'') :
    KeepsOrder kind m m'' := by
  intro hall
  have hall' : ∀ name, kind name = true → name ∈ keys m' := by
    intro name hname
    have hmem : name ∈ (keys m').filter kind := by
      rw [h hall]
      exact List.mem_filter.2 ⟨hall name hname, hname⟩
    exact List.mem_of_mem_filter hmem
  rw [h' hall', h hall]

/-- Writing a name keeps the order: a name of the kind is there already and stays in place, and a
name that is new is not of the kind. -/
theorem keepsOrder_insert (m : OrderedMap α) (name : String) (value : α) :
    KeepsOrder kind m (insert m name value) := by
  intro hall
  rw [keys_insert]
  split_ifs with hname
  · rfl
  · have hkind : kind name = false := Bool.eq_false_iff.2 fun h => hname (hall name h)
    simp [List.filter_append, hkind]

/-- Removing a name that is not of the kind keeps the order of those that are, since it moves no
other name. -/
theorem keepsOrder_erase {name : String} (h : kind name = false) (m : OrderedMap α) :
    KeepsOrder kind m (erase m name) := by
  intro _
  rw [keys_erase]
  induction keys m with
  | nil => rfl
  | cons key rest ih =>
    by_cases hkey : key = name
    · subst hkey
      simp [h]
    · rw [List.erase_cons_tail (by simpa using hkey), List.filter_cons, List.filter_cons, ih]

/-- Writing a list of entries keeps the order, as each of the writes does. -/
lemma keepsOrder_insertMany (m : OrderedMap α) (entries : List (String × α)) :
    KeepsOrder kind m (insertMany m entries) :=
  List.foldlRecOn entries _ (.refl kind m) fun _ h entry _ =>
    h.trans (keepsOrder_insert _ entry.1 entry.2)

/-- Removing names that are not of the kind keeps the order, as each of the removals does. -/
lemma keepsOrder_eraseMany {names : List String} (h : ∀ name ∈ names, kind name = false)
    (m : OrderedMap α) : KeepsOrder kind m (eraseMany m names) :=
  List.foldlRecOn names _ (.refl kind m) fun _ hkept name hname =>
    hkept.trans (keepsOrder_erase (h name hname) _)

end KeepsOrder

/-- **Maps without repeated names have the same entries exactly if they have the same values.** So a
map is determined by what is read from it, up to the order of its entries, and equality in that
sense can be shown one name at a time. -/
theorem perm_iff_get? {m m' : OrderedMap α} (hd : Distinct m) (hd' : Distinct m') :
    m.Perm m' ↔ ∀ name, get? m name = get? m' name := by
  constructor
  · intro hperm name
    ext value
    rw [get?_eq_some_iff hd, get?_eq_some_iff hd', hperm.mem_iff]
  · intro h
    refine (List.perm_ext_iff_of_nodup (List.Nodup.of_map _ hd) (List.Nodup.of_map _ hd')).2 ?_
    rintro ⟨name, value⟩
    rw [← get?_eq_some_iff hd, ← get?_eq_some_iff hd', h]

end RuleEditor.OrderedMap
