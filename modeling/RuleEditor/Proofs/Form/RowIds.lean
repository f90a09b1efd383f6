import Mathlib.Data.List.Nodup
import RuleEditor.Form.Basic
import RuleEditor.Proofs.Json.WellFormed

/-!
# Ids of rows

The rows of a form are told apart by their ids. A row keeps the id that its record gives, whatever
it is, and takes the next one of the counter if it gives none; rows that are made of actions always
take the next one. The ids of the counter never repeat, but the counter does not look at the ids
that were given. So all ids of a form and of the rows that are made after it was read are distinct
exactly if the given ones are and none of them is an id that the counter gives on the way.

## Main definitions

* `ActionRow.IdsDrawn` — the ids that rows have, in terms of given ones and of the counter.
* `ActionRow.Origin`, `ActionRow.ofOrigins` — rows that are made of actions, one after the other.
* `Form.givenIds` — the ids that the record of a form gives.

## Main results

* `ActionRow.IdsDrawn.append` — what two runs in a row draw together.
* `ActionRow.IdsDrawn.nodup_iff` — when the ids of a run are distinct.
* `Form.nodup_ids_iff`, `Form.nodup_ids_ofText?_iff` — when the ids of a form and of later rows are
  distinct.
* `Form.not_nodup_ids_takenId` — a record that gives an id which the counter gives as well.
-/

set_option relaxedAutoImplicit false
set_option autoImplicit false

namespace RuleEditor

namespace ActionRow

/-! ## The counter -/

/-- Different numbers of the counter give different ids. -/
lemma idOf_injective : Function.Injective idOf := by
  intro m n h
  have hdigits : Text.ofNat m = Text.ofNat n := by
    have hlists := congrArg String.toList h
    simpa [idOf] using hlists
  have hread : some m = some n := by rw [← Text.digits?_ofNat m, hdigits, Text.digits?_ofNat n]
  exact Option.some.inj hread

/-- The ids of rows that were made while the counter went from `next` to `next'`: those that were
given, and one for each number that the counter passed. This holds of every way to make rows, be
they read from records or made of actions, and of any sequence of them (`IdsDrawn.append`); whether
the ids are distinct can be told from it alone (`IdsDrawn.nodup_iff`). -/
structure IdsDrawn (ids given : List String) (next next' : Nat) : Prop where
  /-- The counter does not go back. -/
  le : next ≤ next'
  /-- Nothing else is an id, and each counts as often as it was given or drawn. -/
  perm : ids.Perm (given ++ (List.range' next (next' - next)).map idOf)

namespace IdsDrawn

variable {ids ids' given given' : List String} {k m n : Nat}

/-- Without rows, no ids are given or drawn. -/
lemma nil (n : Nat) : IdsDrawn [] [] n n := ⟨Nat.le_refl n, by simp⟩

/-- A row with an id leaves the counter where it is. -/
lemma ofGiven (id : String) (n : Nat) : IdsDrawn [id] [id] n n := ⟨Nat.le_refl n, by simp⟩

/-- A row without an id takes the next one of the counter. -/
lemma ofCounter (n : Nat) : IdsDrawn [idOf n] [] n (n + 1) := ⟨Nat.le_succ n, by simp⟩

/-- What is drawn in two runs in a row.

**Proof sketch.** The numbers that the counter passes in the first run are followed by those that it
passes in the second one; it only remains to move the ids that were given in the second run in front
of them. -/
theorem append (h : IdsDrawn ids given k m) (h' : IdsDrawn ids' given' m n) :
    IdsDrawn (ids ++ ids') (given ++ given') k n := by
  have hle := h.le
  have hle' := h'.le
  have hrange : List.range' k (n - k) = List.range' k (m - k) ++ List.range' m (n - m) := by
    have hm : m = k + (m - k) := by omega
    have hn : n - k = (m - k) + (n - m) := by omega
    rw [hn, ← List.range'_append_1, ← hm]
  refine ⟨Nat.le_trans hle hle', ?_⟩
  have hperm := h.perm.append h'.perm
  rw [hrange, List.map_append]
  refine hperm.trans ?_
  -- what was drawn in the first run and what was given in the second one change places
  simp only [List.append_assoc]
  refine List.Perm.append_left given ?_
  rw [← List.append_assoc, ← List.append_assoc]
  exact List.perm_append_comm.append_right _

/-- **The ids are distinct exactly if the given ones are and the counter gives none of them.** The
ids of the counter among themselves are distinct anyway (`idOf_injective`). -/
theorem nodup_iff (h : IdsDrawn ids given m n) :
    ids.Nodup ↔ given.Nodup ∧ ∀ i, m ≤ i → i < n → idOf i ∉ given := by
  have hle := h.le
  have hdrawn : ((List.range' m (n - m)).map idOf).Nodup :=
    List.Nodup.map idOf_injective List.nodup_range'
  rw [h.perm.nodup_iff, List.nodup_append']
  constructor
  · rintro ⟨hgiven, -, hdisjoint⟩
    refine ⟨hgiven, fun i hm hn hmem => hdisjoint hmem (List.mem_map_of_mem ?_)⟩
    rw [List.mem_range'_1]
    omega
  · rintro ⟨hgiven, hfree⟩
    refine ⟨hgiven, hdrawn, fun id hmem hmem' => ?_⟩
    obtain ⟨i, hi, rfl⟩ := List.mem_map.1 hmem'
    rw [List.mem_range'_1] at hi
    exact hfree i hi.1 (by omega) hmem

end IdsDrawn

/-! ## Rows of records -/

/-- The id that the record of a row gives. -/
def givenId? (v : Json) : Option String :=
  (Json.fields? shape.names v).bind fun o => (OrderedMap.get? o "id").bind Json.str?

/-- A row that is read has the id that its record gives, or else the next one of the counter. -/
lemma idsDrawn_ofJson? {v : Json} {row : ActionRow} {next next' : Nat}
    (h : ofJson? v next = some (row, next')) :
    IdsDrawn [row.id] (givenId? v).toList next next' := by
  simp only [ofJson?, Option.bind_eq_bind, Option.bind_eq_some_iff] at h
  obtain ⟨o, ho, id, hid, type, -, params, -, impaired, -, retained, -, hrow⟩ := h
  have hgiven : givenId? v = id := by
    rw [givenId?, ho, Option.bind_some]
    unfold Json.Object.orElse at hid
    cases hmember : OrderedMap.get? o "id" with
    | none =>
      rw [hmember] at hid
      exact Option.some.inj hid
    | some w =>
      rw [hmember] at hid
      obtain ⟨s, hs, rfl⟩ := Option.map_eq_some_iff.1 hid
      exact hs
  rw [hgiven]
  cases id with
  | none =>
    obtain ⟨rfl, rfl⟩ := Prod.mk.inj (Option.some.inj hrow)
    exact .ofCounter next
  | some id =>
    obtain ⟨rfl, rfl⟩ := Prod.mk.inj (Option.some.inj hrow)
    exact .ofGiven id next

/-- Rows that are read one after the other have the ids that their records give, and the next ones
of the counter where they give none. -/
lemma idsDrawn_listOfItems {items : List Json} {rows : List ActionRow} {next next' : Nat}
    (h : listOfItems items next = (some rows, next')) :
    IdsDrawn (rows.map (·.id)) (items.filterMap givenId?) next next' := by
  induction items generalizing rows next with
  | nil =>
    obtain ⟨hrows, rfl⟩ := Prod.mk.inj h
    rw [← Option.some.inj hrows]
    exact .nil next
  | cons v rest ih =>
    rw [listOfItems] at h
    cases hrow : ofJson? v next with
    | none => simp [hrow] at h
    | some read =>
      obtain ⟨row, mid⟩ := read
      simp only [hrow] at h
      obtain ⟨hrows, hnext⟩ := Prod.mk.inj h
      obtain ⟨others, hothers, rfl⟩ := Option.map_eq_some_iff.1 hrows
      have hrest := ih (show listOfItems rest mid = (some others, next') from
        Prod.ext hothers hnext)
      have hgiven : (v :: rest).filterMap givenId?
          = (givenId? v).toList ++ rest.filterMap givenId? := by
        cases hid : givenId? v <;> simp [hid]
      rw [hgiven]
      exact (idsDrawn_ofJson? hrow).append hrest

/-! ## Rows of actions -/

/-- What a row is made of where there is no record of it: a new action, or one that is stored. In
both cases the row takes the next id of the counter. -/
inductive Origin where
  /-- A new action. -/
  | new (a : Catalog.Action)
  /-- A stored action, which the catalog may know. -/
  | stored (catalog : Catalog) (action : StoredAction)

namespace Origin

/-- The row that is made, with an id. -/
def row (id : String) : Origin → ActionRow
  | .new a => .ofAction id a
  | .stored catalog action => .ofStored id catalog action

/-- The row has the id that it was made with. -/
@[simp] lemma id_row (id : String) (origin : Origin) : (origin.row id).id = id := by
  cases origin with
  | new a => rfl
  | stored catalog action =>
    simp only [row, ofStored]
    cases catalog.action? action.type <;> rfl

end Origin

/-- The rows that are made one after the other, with ids from the counter `next`. The first takes
`next`, and the counter is behind the last one in the end. -/
def ofOrigins : List Origin → Nat → List ActionRow
  | [], _ => []
  | origin :: rest, next => origin.row (idOf next) :: ofOrigins rest (next + 1)

/-- The rows of stored actions in a form are made in this way. -/
lemma ofOrigins_map_stored (catalog : Catalog) (actions : List StoredAction) (next : Nat) :
    ofOrigins (actions.map (.stored catalog)) next = Form.storedRows catalog actions next := by
  induction actions generalizing next with
  | nil => rfl
  | cons a rest ih => simp [ofOrigins, Form.storedRows, Origin.row, ih]

/-- Rows that are made of actions take one id of the counter each. -/
lemma idsDrawn_ofOrigins (origins : List Origin) (next : Nat) :
    IdsDrawn ((ofOrigins origins next).map (·.id)) [] next (next + origins.length) := by
  induction origins generalizing next with
  | nil => exact .nil next
  | cons origin rest ih =>
    have hlength : next + 1 + rest.length = next + (origin :: rest).length := by
      rw [List.length_cons]
      omega
    have hrest := ih (next + 1)
    rw [hlength] at hrest
    rw [ofOrigins, List.map_cons, Origin.id_row]
    exact (IdsDrawn.ofCounter next).append hrest

/-- Rows and all rows that are made of actions afterwards have distinct ids exactly if the ids that
were given are distinct and none of them is one that the counter gives on the way.

**Proof sketch.** Making the first rows and making the later ones are two runs in a row, of which
only the first one is given ids (`IdsDrawn.append`). -/
lemma nodup_ids_append_ofOrigins_iff {rows : List ActionRow} {given : List String}
    {next next' : Nat} (h : IdsDrawn (rows.map (·.id)) given next next') (later : List Origin) :
    ((rows ++ ofOrigins later next').map (·.id)).Nodup ↔
      given.Nodup ∧ ∀ n, next ≤ n → n < next' + later.length → idOf n ∉ given := by
  have hids := h.append (idsDrawn_ofOrigins later next')
  rw [List.append_nil] at hids
  rw [List.map_append]
  exact hids.nodup_iff

end ActionRow

namespace Form

/-! ## Rows of forms -/

/-- The ids that the members of a form's record give for its rows. -/
def givenIdsOf (o : Json.Object) : List String :=
  (((OrderedMap.get? o "actions").bind Json.arr?).getD []).filterMap ActionRow.givenId?

/-- The ids that the record of a form gives for its rows, in order. A row whose record has no id, or
one that is no text, is left out. -/
def givenIds (v : Json) : List String := ((Json.fields? shape.names v).map givenIdsOf).getD []

/-- A member other than the actions leaves the rows as they are. -/
lemma actions_readMember? {f g : Form} {name : String} {v : Json}
    (h : f.readMember? name v = some g) : g.actions = f.actions := by
  unfold readMember? at h
  split at h
  all_goals
    simp only [Option.map_eq_some_iff, Option.some.injEq] at h
    grind

/-- A member other than the actions is read, and then the rest with the same counter. -/
lemma exists_readMembers_of_ne {name : String} {v : Json} {rest : List (String × Json)}
    {f g : Form} {next next' : Nat} (hname : name ≠ "actions")
    (h : readMembers ((name, v) :: rest) f next = (some g, next')) :
    ∃ f', f'.actions = f.actions ∧ readMembers rest f' next = (some g, next') := by
  simp only [readMembers, if_neg hname] at h
  split at h
  · next f' hmember => exact ⟨f', actions_readMember? hmember, h⟩
  · simp at h

/-- The actions are read as rows, and then the rest with the counter behind them. -/
lemma exists_readMembers_actions {v : Json} {rest : List (String × Json)} {f g : Form}
    {next next' : Nat} (h : readMembers (("actions", v) :: rest) f next = (some g, next')) :
    ∃ items actions mid, v = .arr items ∧
      ActionRow.listOfItems items next = (some actions, mid) ∧
      readMembers rest { f with actions } mid = (some g, next') := by
  simp only [readMembers, ↓reduceIte] at h
  split at h
  · next items =>
    split at h
    · next actions mid hitems => exact ⟨items, actions, mid, rfl, hitems, h⟩
    · simp at h
  · simp at h

/-- Where there are no actions among the members, the rows and the counter stay as they are. -/
lemma actions_readMembers {members : List (String × Json)} {f g : Form} {next next' : Nat}
    (hfree : "actions" ∉ OrderedMap.keys members)
    (h : readMembers members f next = (some g, next')) :
    g.actions = f.actions ∧ next' = next := by
  induction members generalizing f with
  | nil =>
    obtain ⟨hf, rfl⟩ := Prod.mk.inj h
    rw [Option.some.inj hf]
    exact ⟨rfl, rfl⟩
  | cons member rest ih =>
    obtain ⟨name, v⟩ := member
    obtain ⟨hname, hrest⟩ : "actions" ≠ name ∧ "actions" ∉ OrderedMap.keys rest := by
      simpa [OrderedMap.keys] using hfree
    obtain ⟨f', hf', h'⟩ := exists_readMembers_of_ne hname.symm h
    obtain ⟨hg, hnext⟩ := ih hrest h'
    exact ⟨hg.trans hf', hnext⟩

/-- The rows of a form that is read member by member have the ids that are given among the actions,
and the next ones of the counter.

**Proof sketch.** Induction on the members. The actions come only once, so that no other member
changes the rows or the counter, be it in front of them (`exists_readMembers_of_ne`) or behind them
(`actions_readMembers`). -/
lemma idsDrawn_readMembers {members : List (String × Json)} {f g : Form} {next next' : Nat}
    (hd : OrderedMap.Distinct members) (hf : f.actions = [])
    (h : readMembers members f next = (some g, next')) :
    ActionRow.IdsDrawn (g.actions.map (·.id)) (givenIdsOf members) next next' := by
  induction members generalizing f with
  | nil =>
    obtain ⟨hg, rfl⟩ := actions_readMembers (by simp [OrderedMap.keys]) h
    rw [hg, hf]
    exact .nil _
  | cons member rest ih =>
    obtain ⟨name, v⟩ := member
    obtain ⟨hfree, hrest⟩ : name ∉ OrderedMap.keys rest ∧ OrderedMap.Distinct rest := by
      simpa [OrderedMap.Distinct, OrderedMap.keys] using hd
    by_cases hname : name = "actions"
    · subst hname
      obtain ⟨items, actions, mid, rfl, hitems, h'⟩ := exists_readMembers_actions h
      obtain ⟨hg, rfl⟩ := actions_readMembers hfree h'
      have hgiven : givenIdsOf (("actions", .arr items) :: rest)
          = items.filterMap ActionRow.givenId? := by
        simp [givenIdsOf, OrderedMap.get?, Json.arr?]
      rw [hg, hgiven]
      exact ActionRow.idsDrawn_listOfItems hitems
    · obtain ⟨f', hf', h'⟩ := exists_readMembers_of_ne hname h
      have hgiven : givenIdsOf ((name, v) :: rest) = givenIdsOf rest := by
        simp [givenIdsOf, OrderedMap.get?, hname]
      rw [hgiven]
      exact ih hrest (hf'.trans hf) h'

/-- The rows of a form that is read have the ids that its record gives, and the next ones of the
counter where it gives none. -/
lemma idsDrawn_ofJson? {v : Json} {f : Form} {next next' : Nat} (hv : v.WellFormed)
    (h : ofJson? v next = (some f, next')) :
    ActionRow.IdsDrawn (f.actions.map (·.id)) (givenIds v) next next' := by
  cases v with
  | obj members =>
    have hd : OrderedMap.Distinct members := hv.1
    exact idsDrawn_readMembers hd rfl h
  | arr items =>
    simp only [ofJson?] at h
    split at h
    · next hlength =>
      -- the names of a record that is given as a list are the first ones of all
      have hd : OrderedMap.Distinct (shape.names.zip items) := by
        rw [OrderedMap.Distinct, OrderedMap.keys, List.zip_eq_zip_take_min,
          List.map_fst_zip (by simp)]
        exact (List.take_sublist _ _).nodup (by decide)
      have hgiven : givenIds (.arr items) = givenIdsOf (shape.names.zip items) := by
        simp [givenIds, Json.fields?, hlength]
      rw [hgiven]
      exact idsDrawn_readMembers hd rfl h
    · simp at h
  | null => simp [ofJson?] at h
  | bool b => simp [ofJson?] at h
  | num n => simp [ofJson?] at h
  | str s => simp [ofJson?] at h

/-- **When the ids of rows are distinct.** The rows of a form that is read and all rows that are
made of actions afterwards have distinct ids exactly if the ids that the record gives are distinct
and none of them is one that the counter gives, be it while the form is read or afterwards. A record
that gives distinct ids is thus not enough: one of them may be an id that the counter comes to.

**Proof sketch.** The ids are those that are given and those that the counter passes
(`idsDrawn_ofJson?`), and the later rows go on where the counter stopped
(`ActionRow.nodup_ids_append_ofOrigins_iff`). -/
theorem nodup_ids_iff {v : Json} {f : Form} {next next' : Nat} (hv : v.WellFormed)
    (h : ofJson? v next = (some f, next')) (later : List ActionRow.Origin) :
    ((f.actions ++ ActionRow.ofOrigins later next').map (·.id)).Nodup ↔
      (givenIds v).Nodup ∧
        ∀ n, next ≤ n → n < next' + later.length → ActionRow.idOf n ∉ givenIds v :=
  ActionRow.nodup_ids_append_ofOrigins_iff (idsDrawn_ofJson? hv h) later

/-- The same of a form that is read from text, with the ids that the value of the text gives. -/
theorem nodup_ids_ofText?_iff {s : String} {f : Form} {next next' : Nat}
    (h : ofText? s next = (some f, next')) (later : List ActionRow.Origin) :
    ∃ v, Json.parseAs? shape s = some v ∧
      (((f.actions ++ ActionRow.ofOrigins later next').map (·.id)).Nodup ↔
        (givenIds v).Nodup ∧
          ∀ n, next ≤ n → n < next' + later.length → ActionRow.idOf n ∉ givenIds v) := by
  unfold ofText? at h
  cases hparse : Json.parseAs? shape s with
  | none => simp [hparse] at h
  | some v =>
    rw [hparse] at h
    have hids := idsDrawn_ofJson? (Json.wellFormed_of_parseAs? hparse) h
    exact ⟨v, rfl, ActionRow.nodup_ids_append_ofOrigins_iff hids later⟩

/-- The record of a form with three rows, of which the first and the last one have ids. -/
def recordWith (first last : String) : Json :=
  .obj [("name", .str "r"), ("actions", .arr [.obj [("id", .str first), ("type", .str "tag")],
    .obj [("type", .str "notify")], .obj [("id", .str last)]])]

/-- The record repeats no name. -/
lemma wellFormed_recordWith (first last : String) : (recordWith first last).WellFormed := by
  simp [recordWith, Json.WellFormed, Json.WellFormedMembers, Json.WellFormedItems,
    OrderedMap.Distinct, OrderedMap.keys]

/-- In that record, ids that the counter does not come to do no harm: neither of the two rows that
are made afterwards has one of them. -/
theorem nodup_ids_recordWith :
    let v := recordWith "action-9" "row"
    let later : List ActionRow.Origin := [.new { type := "tag" }, .stored {} { type := "tag" }]
    v.WellFormed ∧ ∃ f, ofJson? v 1 = (some f, 2) ∧
      ((f.actions ++ ActionRow.ofOrigins later 2).map (·.id)).Nodup := by
  intro v later
  have hv : v.WellFormed := wellFormed_recordWith _ _
  have hfree : ∀ n < 4, ActionRow.idOf n ∉ givenIds v := by decide
  exact ⟨hv, _, rfl, (nodup_ids_iff hv rfl later).2 ⟨by decide, fun n _ hn => hfree n hn⟩⟩

/-- The first id of the counter is given, though just once, and the row without an id takes it
too. -/
theorem not_nodup_ids_takenId :
    let v := recordWith "action-1" "row"
    v.WellFormed ∧ (givenIds v).Nodup ∧
      ∃ f, ofJson? v 1 = (some f, 2) ∧ ¬(f.actions.map (·.id)).Nodup := by
  intro v
  exact ⟨wellFormed_recordWith _ _, by decide, _, rfl, by decide⟩

end Form

end RuleEditor
