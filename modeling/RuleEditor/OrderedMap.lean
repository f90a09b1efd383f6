/-!
# Maps in insertion order

A map from names to values that remembers the order in which its names came. A name that is written
again keeps its place and takes the new value; a name that is removed and written again goes to the
end. Objects of JSON and the parameters of an action are such maps.

## Main definitions

* `OrderedMap` — the entries, in order. Operations keep the names distinct; a list with repeated
  names is read by its first entry of a name.
* `OrderedMap.get?`, `OrderedMap.insert`, `OrderedMap.erase`, `OrderedMap.ofList`.
* `OrderedMap.remove` — removes a name and gives the value that it had.
* `OrderedMap.keys` — the names in order.
* `OrderedMap.Distinct` — no name is repeated.

## Main results

* `OrderedMap.get?_insert`, `OrderedMap.get?_erase` — what is read after a change.
* `OrderedMap.keys_insert`, `OrderedMap.keys_erase` — the order of the names after a change.
* `OrderedMap.distinct_ofList` — the map of a list of entries repeats no name.
-/

namespace RuleEditor

/-- The entries of a map from names to values, in the order of insertion. The type does not demand
that the names are distinct: lists that come from outside may repeat names, and how they are read
then is part of the behaviour. What the operations below build from the empty map is `Distinct`. -/
abbrev OrderedMap (α : Type) := List (String × α)

namespace OrderedMap

variable {α : Type}

/-- The value of a name: that of the first entry with the name, if there is one. -/
def get? : OrderedMap α → String → Option α
  | [], _ => none
  | (key, value) :: rest, name => if key = name then some value else get? rest name

/-- Whether a name has a value. -/
def contains (m : OrderedMap α) (name : String) : Bool := (get? m name).isSome

/-- The names, in order. -/
def keys (m : OrderedMap α) : List String := m.map Prod.fst

/-- Writes a value in the place that the name has, or at the end if it has none. Writing a name
again therefore does not change the order. -/
def insert : OrderedMap α → String → α → OrderedMap α
  | [], name, value => [(name, value)]
  | (key, old) :: rest, name, value =>
    if key = name then (key, value) :: rest else (key, old) :: insert rest name value

/-- Writes a list of entries, one after the other, so that a later entry of a name takes effect over
an earlier one. -/
def insertMany (m : OrderedMap α) (entries : List (String × α)) : OrderedMap α :=
  entries.foldl (fun acc entry => insert acc entry.1 entry.2) m

/-- The map of a list of entries: a repeated name has the place of its first entry and the value of
its last. This is how the members of a JSON object are read. -/
def ofList (entries : List (String × α)) : OrderedMap α := insertMany [] entries

/-- Removes a name; the other entries stay in order. Only the first entry of the name goes, which is
the only one if the names are distinct. -/
def erase : OrderedMap α → String → OrderedMap α
  | [], _ => []
  | (key, value) :: rest, name => if key = name then rest else (key, value) :: erase rest name

/-- Removes a name. The value that it had comes with the map that is left, in one pass; `remove_eq`
says what the two are. -/
def remove : OrderedMap α → String → Option α × OrderedMap α
  | [], _ => (none, [])
  | (key, value) :: rest, name =>
    if key = name then (some value, rest)
    else
      let (old, left) := remove rest name
      (old, (key, value) :: left)

/-- Whether no name is repeated. Every operation keeps this, so that it is shown once for each of
them and not again for the maps that are built with them. -/
def Distinct (m : OrderedMap α) : Prop := (keys m).Nodup

/-- The empty map has no values. -/
@[simp] theorem get?_nil (name : String) : get? ([] : OrderedMap α) name = none := rfl

/-- Removing a name gives the value that `get?` reads and the map that `erase` leaves, so that
nothing else has to be shown of it. -/
theorem remove_eq (m : OrderedMap α) (name : String) :
    remove m name = (get? m name, erase m name) := by
  induction m with
  | nil => rfl
  | cons entry rest ih =>
    obtain ⟨key, value⟩ := entry
    by_cases h : key = name <;> simp [remove, get?, erase, h, ih]

/-- A name that does not occur has no value. -/
theorem get?_eq_none {m : OrderedMap α} {name : String} (h : name ∉ keys m) :
    get? m name = none := by
  induction m with
  | nil => rfl
  | cons entry rest ih =>
    obtain ⟨key, value⟩ := entry
    obtain ⟨hkey, hrest⟩ : ¬name = key ∧ name ∉ keys rest := by simpa [keys] using h
    have hne : ¬key = name := fun e => hkey e.symm
    simp [get?, hne, ih hrest]

/-- A name that was just written has the value written, and no other name is touched. -/
theorem get?_insert (m : OrderedMap α) (name other : String) (value : α) :
    get? (insert m name value) other = if name = other then some value else get? m other := by
  induction m with
  | nil => simp [insert, get?]
  | cons entry rest ih =>
    obtain ⟨key, old⟩ := entry
    by_cases h : key = name
    · subst h
      by_cases ho : key = other <;> simp [insert, get?, ho]
    · by_cases ho : key = other
      · subst ho
        have hne : ¬name = key := fun e => h e.symm
        simp [insert, get?, h, hne]
      · simp [insert, get?, h, ho, ih]

/-- A name that was just removed has no value, and no other name is touched. Distinct names matter
here: a second entry of the name would come to light. -/
theorem get?_erase {m : OrderedMap α} (h : Distinct m) (name other : String) :
    get? (erase m name) other = if name = other then none else get? m other := by
  induction m with
  | nil => simp [erase]
  | cons entry rest ih =>
    obtain ⟨key, value⟩ := entry
    obtain ⟨hkey, hrest⟩ : key ∉ keys rest ∧ Distinct rest := by
      simpa [Distinct, keys] using h
    by_cases hn : key = name
    · subst hn
      by_cases ho : key = other
      · subst ho
        simp [erase, get?_eq_none hkey]
      · simp [erase, get?, ho]
    · by_cases ho : key = other
      · subst ho
        have hne : ¬name = key := fun e => hn e.symm
        simp [erase, get?, hn, hne]
      · simp [erase, get?, hn, ho, ih hrest]

/-- Writing keeps the names in place; a new one comes last. With `get?_insert` this describes a
written map completely, values by the one and order by the other. -/
theorem keys_insert (m : OrderedMap α) (name : String) (value : α) :
    keys (insert m name value) = if name ∈ keys m then keys m else keys m ++ [name] := by
  induction m with
  | nil => simp [insert, keys]
  | cons entry rest ih =>
    obtain ⟨key, old⟩ := entry
    by_cases h : key = name
    · simp [insert, keys, h]
    · have hne : ¬name = key := fun e => h e.symm
      by_cases hm : name ∈ keys rest
      · have hm' := hm
        simp only [hm, ↓reduceIte] at ih
        simp only [keys] at ih hm' ⊢
        simp [insert, h, ih, hm']
      · have hm' := hm
        simp only [hm, ↓reduceIte] at ih
        simp only [keys] at ih hm' ⊢
        simp only [insert, h, ↓reduceIte, List.map_cons, ih, List.mem_cons, hne, hm', or_self,
          List.cons_append]

/-- Removing a name keeps the order of the others: the names are those from before without the one.
-/
theorem keys_erase (m : OrderedMap α) (name : String) :
    keys (erase m name) = (keys m).erase name := by
  induction m with
  | nil => rfl
  | cons entry rest ih =>
    obtain ⟨key, value⟩ := entry
    by_cases h : key = name
    · simp [erase, keys, h]
    · simp only [keys] at ih ⊢
      simp [erase, h, ih]

/-- Writing repeats no name. -/
theorem Distinct.insert {m : OrderedMap α} (h : Distinct m) (name : String) (value : α) :
    Distinct (OrderedMap.insert m name value) := by
  rw [Distinct, keys_insert]
  split
  · exact h
  · next hn =>
    exact List.nodup_append.2 ⟨h, by simp, fun a ha b hb => by
      rw [List.mem_singleton.1 hb]
      exact fun e => hn (e ▸ ha)⟩

/-- Removing repeats no name. -/
theorem Distinct.erase {m : OrderedMap α} (h : Distinct m) (name : String) :
    Distinct (OrderedMap.erase m name) := by
  rw [Distinct, keys_erase]
  exact List.Nodup.erase name h

/-- Writing a list of entries repeats no name. -/
theorem Distinct.insertMany {m : OrderedMap α} (h : Distinct m) (entries : List (String × α)) :
    Distinct (OrderedMap.insertMany m entries) := by
  induction entries generalizing m with
  | nil => exact h
  | cons entry rest ih => exact ih (h.insert entry.1 entry.2)

/-- The map of a list of entries repeats no name, whatever the list repeats. -/
theorem distinct_ofList (entries : List (String × α)) : Distinct (ofList entries) :=
  Distinct.insertMany (by simp [Distinct, keys]) entries

end OrderedMap

end RuleEditor
