import Mathlib.Data.List.Induction
import RuleEditor.Proofs.OrderedMap

/-!
# Histories of ordered maps

A map is edited by writing and removing names. The changes that were made so far tell everything
about it: a name has the value that was written last, unless it was removed since, and the names
stand in the order in which they came in, where a name that was removed comes in anew.

## Main definitions

* `OrderedMap.Change`, `OrderedMap.run` — a change to a map, and what a list of changes makes of
  one.
* `OrderedMap.LastWritten` — a list of changes leaves a name with a value.
* `OrderedMap.EntersAt`, `OrderedMap.CameBefore` — the place of the change with which a name came
  in, and the order of names that this gives.
* `OrderedMap.Reflects` — a map is what a list of changes says of it.

## Main results

* `OrderedMap.Reflects.apply`, `OrderedMap.Reflects.run` — a map that reflects its history does so
  after every further change.
* `OrderedMap.Reflects.unique` — there is one map at most that reflects a history.
* `OrderedMap.reflects_run_ofList` — every map that was edited reflects its history.
-/

set_option relaxedAutoImplicit false
set_option autoImplicit false

namespace RuleEditor.OrderedMap

variable {α : Type}

/-- A change to a map. Reading is no change, and writing a list of entries is a change for each of
them. -/
inductive Change (α : Type) where
  /-- Writes the value of a name. -/
  | insert (name : String) (value : α)
  /-- Removes a name. -/
  | remove (name : String)

/-- The name that a change is about. -/
def Change.name : Change α → String
  | .insert name _ => name
  | .remove name => name

/-- The map after a change. -/
def Change.apply (m : OrderedMap α) : Change α → OrderedMap α
  | .insert name value => OrderedMap.insert m name value
  | .remove name => (OrderedMap.remove m name).2

/-- The map after a list of changes. -/
def run (m : OrderedMap α) (changes : List (Change α)) : OrderedMap α :=
  changes.foldl Change.apply m

/-! ## What changes say of a name -/

/-- The last change of a name writes this value: the name is neither written nor removed later. -/
def LastWritten (history : List (Change α)) (name : String) (value : α) : Prop :=
  ∃ before after, history = before ++ .insert name value :: after ∧ ∀ c ∈ after, c.name ≠ name

/-- A name comes in for good with the change at a place: the change writes the name, which was never
written before or was removed since, and the name is not removed later. Writing it again in between
does not matter. -/
def EntersAt (history : List (Change α)) (name : String) (i : Nat) : Prop :=
  ∃ before value after, history = before ++ .insert name value :: after ∧ before.length = i ∧
    (∀ old, ¬LastWritten before name old) ∧ .remove name ∉ after

/-- One name came in for good before another one. Both are there at the end, so that their places in
the map can be compared. -/
def CameBefore (history : List (Change α)) (a b : String) : Prop :=
  ∃ i j, EntersAt history a i ∧ EntersAt history b j ∧ i < j

section Concat

variable {history : List (Change α)} {name : String}

/-- A list of changes with one more is taken apart at that one or at one before. Histories grow at
the end, so that all step lemmas begin with this case distinction. -/
lemma concat_eq_append_cons_iff {c d : Change α} {before after : List (Change α)} :
    history ++ [c] = before ++ d :: after ↔
      (before = history ∧ d = c ∧ after = []) ∨
        ∃ rest, after = rest ++ [c] ∧ history = before ++ d :: rest := by
  constructor
  · intro h
    rcases after.eq_nil_or_concat with rfl | ⟨rest, last, hafter⟩
    · obtain ⟨rfl, hlast⟩ := List.append_inj' h rfl
      exact .inl ⟨rfl, (List.singleton_inj.1 hlast).symm, rfl⟩
    · rw [List.concat_eq_append] at hafter
      have hsplit : history ++ [c] = (before ++ d :: rest) ++ [last] := by
        rw [h, hafter, List.append_assoc, List.cons_append]
      obtain ⟨hhistory, hlast⟩ := List.append_inj' hsplit rfl
      exact .inr ⟨rest, by rw [hafter, List.singleton_inj.1 hlast], hhistory⟩
  · rintro (⟨rfl, rfl, rfl⟩ | ⟨rest, rfl, rfl⟩)
    · rfl
    · rw [List.append_assoc, List.cons_append]

/-- Without changes nothing was written. -/
lemma not_lastWritten_nil (value : α) : ¬LastWritten [] name value := by
  rintro ⟨before, after, h, -⟩
  simp at h

/-- A change settles what is written of its own name and leaves the other names alone. -/
lemma lastWritten_concat_iff {c : Change α} {value : α} :
    LastWritten (history ++ [c]) name value ↔
      if c.name = name then c = .insert name value else LastWritten history name value := by
  split_ifs with hname
  · constructor
    · rintro ⟨before, after, h, hafter⟩
      rcases concat_eq_append_cons_iff.1 h with ⟨-, hc, -⟩ | ⟨rest, rfl, -⟩
      · exact hc.symm
      · exact absurd hname (hafter c (by simp))
    · rintro rfl
      exact ⟨history, [], rfl, by simp⟩
  · constructor
    · rintro ⟨before, after, h, hafter⟩
      rcases concat_eq_append_cons_iff.1 h with ⟨-, rfl, -⟩ | ⟨rest, rfl, hhistory⟩
      · exact absurd rfl hname
      · exact ⟨before, rest, hhistory, fun d hd => hafter d (by simp [hd])⟩
    · rintro ⟨before, after, rfl, hafter⟩
      refine ⟨before, after ++ [c], by simp, fun d hd => ?_⟩
      rcases List.mem_append.1 hd with hd | hd
      · exact hafter d hd
      · rw [List.mem_singleton.1 hd]
        exact hname

/-- Without changes no name came in. -/
lemma not_entersAt_nil (i : Nat) : ¬EntersAt ([] : List (Change α)) name i := by
  rintro ⟨before, value, after, h, -⟩
  simp at h

/-- With one more change a name comes in at the end, if it is written and was not there, and where
it came in before, if it is not removed. -/
lemma entersAt_concat_iff {c : Change α} {i : Nat} :
    EntersAt (history ++ [c]) name i ↔
      ((∃ value, c = .insert name value) ∧ (∀ old, ¬LastWritten history name old) ∧
        history.length = i) ∨ (EntersAt history name i ∧ c ≠ .remove name) := by
  constructor
  · rintro ⟨before, value, after, h, hlength, hnew, hkept⟩
    rcases concat_eq_append_cons_iff.1 h with ⟨rfl, hc, -⟩ | ⟨rest, rfl, hhistory⟩
    · exact .inl ⟨⟨value, hc.symm⟩, hnew, hlength⟩
    · obtain ⟨hrest, hc⟩ : .remove name ∉ rest ∧ ¬Change.remove name = c := by
        simpa [not_or] using hkept
      exact .inr ⟨⟨before, value, rest, hhistory, hlength, hnew, hrest⟩, fun e => hc e.symm⟩
  · rintro (⟨⟨value, rfl⟩, hnew, hlength⟩ | ⟨⟨before, value, after, rfl, hlength, hnew, hkept⟩, hc⟩)
    · exact ⟨history, value, [], rfl, hlength, hnew, List.not_mem_nil⟩
    · refine ⟨before, value, after ++ [c], by simp, hlength, hnew, fun hmem => ?_⟩
      rcases List.mem_append.1 hmem with hmem | hmem
      · exact hkept hmem
      · exact hc (List.mem_singleton.1 hmem).symm

/-- The place at which a name came in is one of the changes. -/
lemma EntersAt.lt_length {i : Nat} (h : EntersAt history name i) : i < history.length := by
  obtain ⟨before, value, after, rfl, rfl, -, -⟩ := h
  simp

/-- A name that came in for good was written last: its last change is the one with which it came in
or a later one that writes it again. -/
lemma EntersAt.exists_lastWritten {i : Nat} (h : EntersAt history name i) :
    ∃ value, LastWritten history name value := by
  induction history using List.reverseRecOn with
  | nil => exact absurd h (not_entersAt_nil i)
  | append_singleton history c ih =>
    simp only [lastWritten_concat_iff]
    rcases entersAt_concat_iff.1 h with ⟨⟨value, rfl⟩, -, -⟩ | ⟨hold, hc⟩
    · exact ⟨value, by simp [Change.name]⟩
    · by_cases hname : c.name = name
      · cases c with
        | insert other value => exact ⟨value, by simp_all [Change.name]⟩
        | remove other => exact absurd (congrArg Change.remove hname) hc
      · simpa [hname] using ih hold

/-- A name came in for good at one place only. At the later of two places it would have been there
already, and was not removed since the earlier one. -/
theorem EntersAt.unique {i j : Nat} (hi : EntersAt history name i) (hj : EntersAt history name j) :
    i = j := by
  induction history using List.reverseRecOn with
  | nil => exact absurd hi (not_entersAt_nil i)
  | append_singleton history c ih =>
    rcases entersAt_concat_iff.1 hi with ⟨-, hnew, rfl⟩ | ⟨hi, -⟩ <;>
      rcases entersAt_concat_iff.1 hj with ⟨-, hnew', rfl⟩ | ⟨hj, -⟩
    · rfl
    · obtain ⟨value, hvalue⟩ := hj.exists_lastWritten
      exact absurd hvalue (hnew value)
    · obtain ⟨value, hvalue⟩ := hi.exists_lastWritten
      exact absurd hvalue (hnew' value)
    · exact ih hi hj

/-- Of two names one came in before the other, but not the other way round as well. So the order in
which a map has to list its names is settled by its history. -/
lemma CameBefore.asymm {a b : String} (h : CameBefore history a b) : ¬CameBefore history b a := by
  rintro ⟨j', i', hj', hi', hlt'⟩
  obtain ⟨i, j, hi, hj, hlt⟩ := h
  have := hi.unique hi'
  have := hj.unique hj'
  omega

end Concat

/-! ## Maps and their histories -/

/-- A map is what a list of changes says of it. The first field is about the map alone, the second
says what is read from it, and the last two give its names and their order, so that nothing about
the map is left open (`Reflects.unique`). -/
structure Reflects (history : List (Change α)) (m : OrderedMap α) : Prop where
  /-- No name is repeated. -/
  distinct : (keys m).Nodup
  /-- A name has the value that was written last, if it was not removed since. -/
  get?_eq_some_iff : ∀ name value, get? m name = some value ↔ LastWritten history name value
  /-- The names are those that came in for good. -/
  mem_keys_iff : ∀ name, name ∈ keys m ↔ ∃ i, EntersAt history name i
  /-- The names stand in the order in which they came in. -/
  ordered : (keys m).Pairwise (CameBefore history)

/-- The map without entries reflects that nothing was changed. -/
lemma reflects_nil : Reflects ([] : List (Change α)) [] where
  distinct := List.nodup_nil
  get?_eq_some_iff _ value := by simp [not_lastWritten_nil value]
  mem_keys_iff _ := by simp [keys, not_entersAt_nil]
  ordered := List.Pairwise.nil

namespace Reflects

variable {history : List (Change α)} {m m' : OrderedMap α}

/-- The names that do not occur are those that were never written or removed since. -/
lemma notMem_keys_iff (h : Reflects history m) {name : String} :
    name ∉ keys m ↔ ∀ value, ¬LastWritten history name value := by
  simp only [← get?_eq_none_iff, ← h.get?_eq_some_iff, Option.eq_none_iff_forall_ne_some]

/-- **Writing a name is reflected.** A name that is there keeps its place, and one that is not comes
in behind all others. -/
theorem insert (h : Reflects history m) (name : String) (value : α) :
    Reflects (history ++ [.insert name value]) (OrderedMap.insert m name value) where
  distinct := Distinct.insert h.distinct name value
  get?_eq_some_iff other v := by
    rw [get?_insert, lastWritten_concat_iff, ← h.get?_eq_some_iff]
    by_cases hname : name = other
    · simp [hname, Change.name]
    · simp [hname, Change.name]
  mem_keys_iff other := by
    rw [mem_keys_insert]
    constructor
    · intro hother
      by_cases hmem : other ∈ keys m
      · obtain ⟨i, hi⟩ := (h.mem_keys_iff other).1 hmem
        exact ⟨i, entersAt_concat_iff.2 (.inr ⟨hi, nofun⟩)⟩
      · obtain rfl := hother.resolve_left hmem
        exact ⟨_, entersAt_concat_iff.2 (.inl ⟨⟨value, rfl⟩, h.notMem_keys_iff.1 hmem, rfl⟩)⟩
    · rintro ⟨i, hi⟩
      rcases entersAt_concat_iff.1 hi with ⟨⟨v, hv⟩, -, -⟩ | ⟨hi, -⟩
      · exact .inr (Change.insert.inj hv).1.symm
      · exact .inl ((h.mem_keys_iff other).2 ⟨i, hi⟩)
  ordered := by
    have hkept : ∀ {a i}, EntersAt history a i → EntersAt (history ++ [.insert name value]) a i :=
      fun hi => entersAt_concat_iff.2 (.inr ⟨hi, nofun⟩)
    have hold : (keys m).Pairwise (CameBefore (history ++ [.insert name value])) :=
      h.ordered.imp fun ⟨i, j, hi, hj, hlt⟩ => ⟨i, j, hkept hi, hkept hj, hlt⟩
    rw [keys_insert]
    split_ifs with hmem
    · exact hold
    · refine List.pairwise_append.2 ⟨hold, List.pairwise_singleton _ _, fun a ha b hb => ?_⟩
      obtain rfl := List.mem_singleton.1 hb
      obtain ⟨i, hi⟩ := (h.mem_keys_iff a).1 ha
      have hnew := h.notMem_keys_iff.1 hmem
      exact ⟨i, history.length, hkept hi,
        entersAt_concat_iff.2 (.inl ⟨⟨value, rfl⟩, hnew, rfl⟩), hi.lt_length⟩

/-- **Removing a name is reflected.** The other names stay where they are. -/
theorem erase (h : Reflects history m) (name : String) :
    Reflects (history ++ [.remove name]) (OrderedMap.erase m name) where
  distinct := Distinct.erase h.distinct name
  get?_eq_some_iff other v := by
    rw [get?_erase h.distinct, lastWritten_concat_iff, ← h.get?_eq_some_iff]
    by_cases hname : name = other
    · simp [hname, Change.name]
    · simp [hname, Change.name]
  mem_keys_iff other := by
    rw [keys_erase, h.distinct.mem_erase_iff, h.mem_keys_iff]
    simp [entersAt_concat_iff, and_comm, eq_comm]
  ordered := by
    have hkept : ∀ {a i}, a ≠ name → EntersAt history a i →
        EntersAt (history ++ [.remove name]) a i :=
      fun hne hi => entersAt_concat_iff.2 (.inr ⟨hi, fun e => hne (Change.remove.inj e).symm⟩)
    have hne : ∀ {a}, a ∈ (keys m).erase name → a ≠ name := fun ha =>
      (h.distinct.mem_erase_iff.1 ha).1
    rw [keys_erase]
    refine (h.ordered.sublist List.erase_sublist).imp_of_mem ?_
    rintro a b ha hb ⟨i, j, hi, hj, hlt⟩
    exact ⟨i, j, hkept (hne ha) hi, hkept (hne hb) hj, hlt⟩

/-- **One more change is reflected**, whichever it is. This is the step of the induction along a
history. -/
theorem apply (h : Reflects history m) (c : Change α) :
    Reflects (history ++ [c]) (c.apply m) := by
  cases c with
  | insert name value => exact h.insert name value
  | remove name =>
    rw [Change.apply, remove_eq]
    exact h.erase name

/-- **A list of further changes is reflected.** By induction along the changes, each of which goes
behind the history so far. -/
theorem run (h : Reflects history m) (changes : List (Change α)) :
    Reflects (history ++ changes) (OrderedMap.run m changes) := by
  induction changes generalizing history m with
  | nil =>
    rw [List.append_nil]
    exact h
  | cons c rest ih =>
    rw [List.append_cons]
    exact ih (h.apply c)

/-- **A history says all about a map.** Two maps that reflect the same changes list the same names
in the same order, with the same values. This is why the four fields of `Reflects` are a full
description. -/
theorem unique (h : Reflects history m) (h' : Reflects history m') : m = m' := by
  have hperm : m.Perm m' := (perm_iff_get? h.distinct h'.distinct).2 fun name => by
    ext value
    rw [h.get?_eq_some_iff, h'.get?_eq_some_iff]
  exact hperm.eq_of_pairwise (fun _ _ _ _ hab hba => absurd hba hab.asymm)
    (List.pairwise_map.1 h.ordered) (List.pairwise_map.1 h'.ordered)

end Reflects

/-- The map of a list of entries is what writing them one after the other makes of the empty map. -/
lemma run_map_insert (m : OrderedMap α) (entries : List (String × α)) :
    run m (entries.map fun entry => .insert entry.1 entry.2) = insertMany m entries := by
  rw [run, List.foldl_map]
  rfl

/-- **Every map that was edited reflects its history.** Whatever entries a map was made of and
however it was changed since, its names are distinct, each has the value that was written last, and
they stand in the order in which they came in; and removing a name gives the value that it has.

**Proof sketch.** Making a map of entries is a history of its own, in which each entry is written
(`run_map_insert`). From the empty map on each change is reflected (`Reflects.insert`,
`Reflects.erase`), hence so is a list of them (`Reflects.run`). -/
theorem reflects_run_ofList (entries : List (String × α)) (changes : List (Change α)) :
    Reflects (entries.map (fun entry => .insert entry.1 entry.2) ++ changes)
        (run (ofList entries) changes) ∧
      ∀ name, (remove (run (ofList entries) changes) name).1 =
        get? (run (ofList entries) changes) name := by
  have hstart := reflects_nil.run (entries.map fun entry => .insert entry.1 entry.2)
  rw [List.nil_append, run_map_insert] at hstart
  refine ⟨hstart.run changes, fun name => ?_⟩
  rw [remove_eq]

-- a name that is written again keeps its place, and one that was removed before comes in anew
example : run (ofList [("b", 1), ("a", 2), ("c", 3)]) [.insert "b" 4, .remove "a", .insert "a" 5] =
    [("b", 4), ("c", 3), ("a", 5)] := by decide

end RuleEditor.OrderedMap
