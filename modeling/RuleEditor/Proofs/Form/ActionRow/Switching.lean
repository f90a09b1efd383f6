import Mathlib.Data.List.Lemmas
import RuleEditor.Proofs.Form.ActionRow.Editing

/-!
# What an edit changes

An edit writes one value and brings the values of the variants that the name controls in line with
it: the parameters of variants that are no longer selected are removed, and those of the variant
that now is keep their values or get their defaults. Nothing else is touched, and the names that
stay do so in their order. Where no name is declared twice this holds of any row, whatever values it
holds or lacks.

## Main definitions

* `Catalog.Param.staleNames` — the names that switching the variants of a parameter removes.
* `Params.Writes` — a map comes from another one by writing entries.
* `Params.IsEditOf` — all that an edit of one value does.

## Main results

* `Params.switchVariant_eq` — switching is removing names and adding what is missing.
* `Params.isEditOf_setParam` — what an edit does to a row.
-/

set_option relaxedAutoImplicit false
set_option autoImplicit false

namespace RuleEditor

open Catalog

namespace Catalog.Param

/-! ## Names that are removed -/

/-- The names that a variant declares at its top and the selected variant does not. If no variant is
selected, these are all names at the top of the given one; what stands deeper in its own variants is
not among them. -/
def staleNamesOf (selected : Option Variant) (v : Variant) : List String :=
  (v.params.map (·.name)).filter fun name =>
    !((selected.map fun v => v.params.map (·.name)).getD []).contains name

/-- The names that switching the variants of a parameter removes: those that belong to variants
which the controller's text does not select, and not to the one that it selects. A name that the old
variant and the new one share is not stale, so that its value lives on. -/
def staleNames (p : Param) (text : Option String) : List String :=
  (p.kind.variants.filter fun v => text ≠ some v.discriminator).flatMap
    (staleNamesOf (p.activeVariant? text))

/-- A name is stale with respect to a variant exactly if that variant declares it at its top and the
selected variant, if there is one, does not. -/
lemma mem_staleNamesOf_iff {selected : Option Variant} {v : Variant} {name : String} :
    name ∈ staleNamesOf selected v ↔
      (∃ q ∈ v.params, q.name = name) ∧ ∀ s, selected = some s → ∀ q ∈ s.params, q.name ≠ name := by
  cases selected with
  | none => simp [staleNamesOf]
  | some s => simp [staleNamesOf]

/-- A name is stale exactly if a variant that is not selected declares it and the one that is
selected does not. -/
lemma mem_staleNames_iff {p : Param} {text : Option String} {name : String} :
    name ∈ p.staleNames text ↔
      (∃ v ∈ p.kind.variants, text ≠ some v.discriminator ∧ ∃ q ∈ v.params, q.name = name) ∧
        ∀ s, p.activeVariant? text = some s → ∀ q ∈ s.params, q.name ≠ name := by
  simp only [staleNames, List.mem_flatMap, List.mem_filter, decide_eq_true_eq,
    mem_staleNamesOf_iff]
  constructor
  · rintro ⟨v, ⟨hv, htext⟩, hdeclared, hselected⟩
    exact ⟨⟨v, hv, htext, hdeclared⟩, hselected⟩
  · rintro ⟨⟨v, hv, htext, hdeclared⟩, hselected⟩
    exact ⟨v, ⟨hv, htext⟩, hdeclared, hselected⟩

/-- The selected variant has the discriminator of a given one exactly if the text is that
discriminator. -/
lemma discriminator_activeVariant?_eq_iff {p : Param} {text : Option String} {v : Variant}
    (hv : v ∈ p.kind.variants) :
    (p.activeVariant? text).map (·.discriminator) = some v.discriminator ↔
      text = some v.discriminator := by
  cases h : p.activeVariant? text with
  | some s =>
    rw [(mem_variants_of_activeVariant? h).2]
    rfl
  | none =>
    refine iff_of_false (by simp) ?_
    rintro rfl
    have hnone : p.kind.variants.find? (·.discriminator = v.discriminator) = none := h
    exact absurd (List.find?_eq_none.1 hnone v hv) (by simp)

end Catalog.Param

namespace Params

variable {m m' m'' : Params} {name : String}

/-- Removing a variant is removing, one after the other, the names of it that are stale. -/
lemma dropVariant_eq_eraseMany (selected : Option Variant) (m : Params) (v : Variant) :
    dropVariant selected m v = OrderedMap.eraseMany m (Param.staleNamesOf selected v) := by
  rw [OrderedMap.eraseMany, Param.staleNamesOf, List.foldl_filter, List.foldl_map, dropVariant]
  simp

/-- **Switching is removing names and adding what is missing.** The names are those of the variants
that are not selected (`Catalog.Param.staleNames`), all removed at once, and what is missing is what
seeding adds to the selected variant. If the text selects no variant, only the removal is left. -/
theorem switchVariant_eq (text : Option String) (m : Params) (p : Param) :
    switchVariant text m p =
      match p.activeVariant? text with
      | some v => seed v.params (OrderedMap.eraseMany m (p.staleNames text))
      | none => OrderedMap.eraseMany m (p.staleNames text) := by
  have hothers : (p.kind.variants.filter fun v =>
      (p.activeVariant? text).map (·.discriminator) != some v.discriminator) =
      p.kind.variants.filter fun v => text ≠ some v.discriminator := by
    refine List.filter_congr fun v hv => ?_
    rw [Bool.eq_iff_iff, bne_iff_ne, decide_eq_true_iff, ne_eq, ne_eq,
      Param.discriminator_activeVariant?_eq_iff hv]
  have herased : (p.kind.variants.filter fun v => text ≠ some v.discriminator).foldl
      (dropVariant (p.activeVariant? text)) m = OrderedMap.eraseMany m (p.staleNames text) := by
    rw [OrderedMap.eraseMany, Param.staleNames, List.foldl_flatMap]
    congr 1
    funext m v
    exact dropVariant_eq_eraseMany _ m v
  unfold switchVariant
  dsimp only
  rw [hothers]
  cases hselected : p.activeVariant? text with
  | none =>
    rw [hselected] at herased
    exact herased
  | some v =>
    rw [hselected] at herased
    exact congrArg (seed v.params) herased

/-! ## Seeding writes entries -/

/-- The second map comes from the first by writing entries one after the other. This is all that
seeding does to a map, whatever it finds in it; so names stay distinct and keep their order. -/
def Writes (m m' : Params) : Prop := ∃ entries, m' = OrderedMap.insertMany m entries

/-- Writing nothing leaves a map as it is. -/
lemma Writes.refl (m : Params) : Writes m m := ⟨[], rfl⟩

/-- Writing entries and then others is writing entries. -/
lemma Writes.trans (h : Writes m m') (h' : Writes m' m'') : Writes m m'' := by
  obtain ⟨first, rfl⟩ := h
  obtain ⟨others, rfl⟩ := h'
  exact ⟨first ++ others, (OrderedMap.insertMany_append m first others).symm⟩

/-- Writing entries repeats no name. -/
lemma Writes.distinct (h : Writes m m') (hd : OrderedMap.Distinct m) :
    OrderedMap.Distinct m' := by
  obtain ⟨entries, rfl⟩ := h
  exact hd.insertMany entries

/-- Writing entries keeps the order of the names that are there: new ones come in behind them. -/
lemma Writes.keepsOrder (h : Writes m m') (kind : String → Bool) :
    OrderedMap.KeepsOrder kind m m' := by
  obtain ⟨entries, rfl⟩ := h
  exact OrderedMap.keepsOrder_insertMany m entries

/-- Adding a default writes one entry, or none. -/
lemma writes_seedDefault (p : Param) (m : Params) : Writes m (seedDefault m p) := by
  unfold seedDefault
  split_ifs
  · exact .refl m
  · cases p.defaultValue? with
    | none => exact .refl m
    | some value => exact ⟨[(p.name, value)], rfl⟩

/-- Adding defaults writes entries. -/
lemma writes_seedDefaults : ∀ (params : List Param) (m : Params),
    Writes m (seedDefaults params m)
  | [], m => .refl m
  | p :: rest, m => (writes_seedDefault p m).trans (writes_seedDefaults rest (seedDefault m p))

mutual

/-- Filling up the selected variants of parameters writes entries. -/
lemma writes_seedVariants : ∀ (params : List Param) (m : Params),
    Writes m (seedVariants params m)
  | [], m => .refl m
  | ⟨info, kind⟩ :: rest, m => by
    rw [seedVariants]
    exact (writes_seedKind kind m).trans (writes_seedVariants rest (seedKind kind m))

/-- Filling up the selected variant of a kind writes entries. -/
lemma writes_seedKind : ∀ (kind : ParamKind) (m : Params), Writes m (seedKind kind m)
  | .variant controller variants, m => by
    rw [seedKind]
    exact writes_seedSelected (m.textOf controller) variants m
  | .string, m | .number, m | .integer, m | .boolean, m | .object, m | .stringArray, m => .refl m

/-- Filling up one of a list of variants writes entries. -/
lemma writes_seedSelected (selected : Option String) : ∀ (variants : List Variant) (m : Params),
    Writes m (seedSelected selected variants m)
  | [], m => .refl m
  | ⟨discriminator, params⟩ :: rest, m => by
    rw [seedSelected]
    split
    · exact (writes_seedDefaults params m).trans
        (writes_seedVariants params (seedDefaults params m))
    · exact writes_seedSelected selected rest m

end

/-- Adding all that is missing writes entries. -/
lemma writes_seed (params : List Param) (m : Params) : Writes m (seed params m) :=
  (writes_seedDefaults params m).trans (writes_seedVariants params (seedDefaults params m))

/-! ## Values after seeding -/

/-- A declared parameter that holds a value has, once a list is seeded, the value that it had or, if
it had none, its default. -/
lemma get?_seed_of_mem {params : List Param} {q : Param} (hq : q ∈ params)
    (hvalue : q.kind.isVariant = false)
    (hunique : ∀ p ∈ Param.declared params, p.name = q.name → p = q) (m : Params) :
    OrderedMap.get? (seed params m) q.name = (OrderedMap.get? m q.name).or q.defaultValue? := by
  rcases seeds_seed params m q.name with hsame | ⟨hnone, p, hp, hname, hdefault⟩
  · have hcontains : OrderedMap.contains (seed params m) q.name = true :=
      (seeds_seedVariants params _).contains (contains_seedDefaults ⟨q, hq, hvalue, rfl⟩ m)
    rw [OrderedMap.contains, hsame] at hcontains
    obtain ⟨value, hold⟩ := Option.isSome_iff_exists.1 hcontains
    rw [hsame, hold, Option.some_or]
  · obtain rfl := hunique p hp hname
    rw [hdefault, hnone, Option.none_or]

/-! ## Switching one parameter -/

/-- Switching the variants of a parameter repeats no name. -/
lemma distinct_switchVariant (hd : OrderedMap.Distinct m) (text : Option String) (p : Param) :
    OrderedMap.Distinct (switchVariant text m p) := by
  have herased := hd.eraseMany (p.staleNames text)
  rw [switchVariant_eq]
  split
  · exact (writes_seed _ _).distinct herased
  · exact herased

/-- Switching keeps the order of the names that it does not remove. -/
lemma keepsOrder_switchVariant {kind : String → Bool} {text : Option String} {p : Param}
    (h : ∀ name ∈ p.staleNames text, kind name = false) (m : Params) :
    OrderedMap.KeepsOrder kind m (switchVariant text m p) := by
  have herased : OrderedMap.KeepsOrder kind m (OrderedMap.eraseMany m (p.staleNames text)) :=
    OrderedMap.keepsOrder_eraseMany h m
  rw [switchVariant_eq]
  split
  · exact herased.trans ((writes_seed _ _).keepsOrder kind)
  · exact herased

section DeclaredOnce

variable {params : List Param} (hnames : ((Param.declared params).map fun p => p.name).Nodup)
  {p q : Param} {v : Variant} {text : Option String}

include hnames

/-- The parameters of a variant that is not selected have no value after switching. -/
lemma get?_switchVariant_of_unselected (hp : p ∈ params) (hv : v ∈ p.kind.variants)
    (htext : text ≠ some v.discriminator) (hq : q ∈ v.params) (hd : OrderedMap.Distinct m) :
    OrderedMap.get? (switchVariant text m p) q.name = none := by
  -- the selected variant is another one and declares other names
  have hother : ∀ s, p.activeVariant? text = some s → ∀ q' ∈ Param.declared s.params,
      q'.name ≠ q.name := by
    intro s hs q' hq' hname
    obtain ⟨hs', hstext⟩ := Param.mem_variants_of_activeVariant? hs
    obtain rfl := Param.eq_of_mem_variants hnames hp hs' hv hq' (mem_declared_of_mem hq) hname
    exact htext hstext
  have hstale : q.name ∈ p.staleNames text :=
    Param.mem_staleNames_iff.2 ⟨⟨v, hv, htext, q, hq, rfl⟩,
      fun s hs q' hq' => hother s hs q' (mem_declared_of_mem hq')⟩
  have herased : OrderedMap.get? (OrderedMap.eraseMany m (p.staleNames text)) q.name = none := by
    rw [OrderedMap.get?_eraseMany hd, if_pos hstale]
  rw [switchVariant_eq]
  split
  · next s hs => rw [(seeds_seed s.params _).get?_of_ne (hother s hs), herased]
  · exact herased

/-- The parameters of the selected variant that hold values have after switching the values that
they had, or their defaults. -/
lemma get?_switchVariant_of_selected (hp : p ∈ params) (hv : p.activeVariant? text = some v)
    (hq : q ∈ v.params) (hvalue : q.kind.isVariant = false) (hd : OrderedMap.Distinct m) :
    OrderedMap.get? (switchVariant text m p) q.name =
      (OrderedMap.get? m q.name).or q.defaultValue? := by
  have hstale : q.name ∉ p.staleNames text :=
    fun hstale => (Param.mem_staleNames_iff.1 hstale).2 v hv q hq rfl
  have hunique : ∀ q' ∈ Param.declared v.params, q'.name = q.name → q' = q := by
    have hvariant := (Param.mem_variants_of_activeVariant? hv).1
    intro q' hq' hname
    exact List.inj_on_of_nodup_map hnames (Param.mem_declared_of_mem_variants hp hvariant hq').2
      (Param.mem_declared_of_mem_variants hp hvariant (mem_declared_of_mem hq)).2 hname
  rw [switchVariant_eq, hv]
  dsimp only
  rw [get?_seed_of_mem hq hvalue hunique, OrderedMap.get?_eraseMany hd, if_neg hstale]

end DeclaredOnce

/-! ## Switching all parameters of a controller -/

/-- An edit writes the value and then switches, one after the other, the parameters at the top that
the name controls; what selects among their variants is the text of the value just written. -/
lemma set_eq_foldl (a : Action) (m : Params) (name : String) (value : EditValue) :
    m.set a name value = (a.controlledBy name).foldl (switchVariant (some value.toText))
      (OrderedMap.insert m name value) := by
  rw [set, textOf_insert]

/-- Of a list of changes of which one alone touches a name, it is that change that counts. -/
lemma exists_get?_foldl {α : Type} {f : Params → α → Params} {xs : List α} (hnodup : xs.Nodup)
    {x : α} (hx : x ∈ xs)
    (h : ∀ y ∈ xs, y ≠ x → ∀ m, OrderedMap.get? (f m y) name = OrderedMap.get? m name)
    (m : Params) :
    ∃ done : List α, OrderedMap.get? (done.foldl f m) name = OrderedMap.get? m name ∧
      OrderedMap.get? (xs.foldl f m) name = OrderedMap.get? (f (done.foldl f m) x) name := by
  obtain ⟨done, rest, rfl⟩ := List.append_of_mem hx
  have hnot : x ∉ done ++ rest := (List.nodup_cons.1 (List.nodup_middle.1 hnodup)).1
  have hne : ∀ y, y ∈ done ++ rest → y ≠ x := fun y hy heq => hnot (heq ▸ hy)
  refine ⟨done, ?_, ?_⟩
  · exact get?_foldl (fun y hy => h y (List.mem_append_left _ hy)
      (hne y (List.mem_append_left _ hy))) m
  · rw [List.foldl_append, List.foldl_cons]
    exact get?_foldl (fun y hy => h y (List.mem_append_right _ (List.mem_cons_of_mem _ hy))
      (hne y (List.mem_append_right _ hy))) _

/-- All that an edit of one value of an action does to the values of a row. The first three fields
say what the edit is for: the value is written, what belongs to variants that it does not select
goes, and what belongs to the one that it selects is there, with the value that it had or with its
default. The last two say that nothing else happens: values that the edited name has nothing to do
with stay, and so does the order of all names that stay. -/
structure IsEditOf (a : Action) (name : String) (value : EditValue) (m m' : Params) : Prop where
  /-- The name has the value. -/
  edited : OrderedMap.get? m' name = some value
  /-- The parameters of variants that the value does not select are gone. -/
  unselected : ∀ p ∈ a.controlledBy name, ∀ v ∈ p.kind.variants, v.discriminator ≠ value.toText →
    ∀ q ∈ v.params, OrderedMap.get? m' q.name = none
  /-- The parameters of the variant that it selects have the value that they had or, if they had
  none, their default. -/
  selected : ∀ p ∈ a.controlledBy name, ∀ v, p.activeVariant? (some value.toText) = some v →
    ∀ q ∈ v.params, q.kind.isVariant = false →
      ∃ w, OrderedMap.get? m' q.name = some w ∧
        (OrderedMap.get? m q.name).or q.defaultValue? = some w
  /-- What is not declared in a variant that the name controls is as it was. -/
  untouched : ∀ other, other ≠ name →
    (∀ p ∈ a.controlledBy name, ∀ q ∈ Param.declaredInKind p.kind, q.name ≠ other) →
      OrderedMap.get? m' other = OrderedMap.get? m other
  /-- The names that stay do so in their order. -/
  order : (OrderedMap.keys m').filter (· ∈ OrderedMap.keys m) =
    (OrderedMap.keys m).filter (· ∈ OrderedMap.keys m')

section Edits

variable {a : Action} (hnames : ((Param.declared a.params).map fun p => p.name).Nodup)
  {p q : Param} {v : Variant} {value : EditValue}

include hnames

/-- What an edit does to a name in the variants of a parameter is done by switching that
parameter. -/
lemma exists_get?_set (hd : OrderedMap.Distinct m) (hp : p ∈ a.controlledBy name)
    (hq : q ∈ Param.declaredInKind p.kind) (value : EditValue) :
    ∃ before, OrderedMap.Distinct before ∧
      OrderedMap.get? before q.name = OrderedMap.get? (OrderedMap.insert m name value) q.name ∧
      OrderedMap.get? (m.set a name value) q.name =
        OrderedMap.get? (switchVariant (some value.toText) before p) q.name := by
  have htop : ∀ p' ∈ a.controlledBy name, p' ∈ a.params := fun _ hp' => List.mem_of_mem_filter hp'
  -- the variants of other parameters declare other names
  have hothers : ∀ p' ∈ a.controlledBy name, p' ≠ p → ∀ m,
      OrderedMap.get? (switchVariant (some value.toText) m p') q.name =
        OrderedMap.get? m q.name := by
    intro p' hp' hne
    refine get?_switchVariant (fun q' hq' heq => hne ?_) _
    exact Param.eq_of_mem_declaredInKind hnames (htop p' hp') (htop p hp) hq' hq heq
  have hnodup : (a.controlledBy name).Nodup := (Param.nodup_of_nodup_names hnames).filter _
  obtain ⟨done, hbefore, hset⟩ :=
    exists_get?_foldl hnodup hp hothers (OrderedMap.insert m name value)
  refine ⟨_, ?_, hbefore, by rw [set_eq_foldl, hset]⟩
  exact List.foldlRecOn done _ (hd.insert name value)
    fun _ hd p' _ => distinct_switchVariant hd _ p'

/-- The parameters of variants that an edit does not select have no value after it. -/
lemma get?_set_of_unselected (hd : OrderedMap.Distinct m) (hp : p ∈ a.controlledBy name)
    (hv : v ∈ p.kind.variants) (htext : v.discriminator ≠ value.toText) (hq : q ∈ v.params) :
    OrderedMap.get? (m.set a name value) q.name = none := by
  have hin := (Param.mem_declared_of_mem_variants (List.mem_singleton_self p) hv
    (mem_declared_of_mem hq)).1
  obtain ⟨before, hd', -, hset⟩ := exists_get?_set hnames hd hp hin value
  rw [hset]
  exact get?_switchVariant_of_unselected hnames (List.mem_of_mem_filter hp) hv
    (fun h => htext (Option.some.inj h).symm) hq hd'

/-- The parameters of a variant that an edit selects have the values that they had, or their
defaults. -/
lemma get?_set_of_selected (hd : OrderedMap.Distinct m) (hp : p ∈ a.controlledBy name)
    (hv : p.activeVariant? (some value.toText) = some v) (hq : q ∈ v.params)
    (hvalue : q.kind.isVariant = false) (hne : q.name ≠ name) :
    OrderedMap.get? (m.set a name value) q.name =
      (OrderedMap.get? m q.name).or q.defaultValue? := by
  have hin := (Param.mem_declared_of_mem_variants (List.mem_singleton_self p)
    (Param.mem_variants_of_activeVariant? hv).1 (mem_declared_of_mem hq)).1
  obtain ⟨before, hd', hbefore, hset⟩ := exists_get?_set hnames hd hp hin value
  rw [hset, get?_switchVariant_of_selected hnames (List.mem_of_mem_filter hp) hv hq hvalue hd',
    hbefore, OrderedMap.get?_insert, if_neg hne.symm]

/-- The names that an edit leaves in a map are in the order that they had. -/
lemma filter_keys_set (hd : OrderedMap.Distinct m) (value : EditValue) :
    (OrderedMap.keys (m.set a name value)).filter (· ∈ OrderedMap.keys m) =
      (OrderedMap.keys m).filter (· ∈ OrderedMap.keys (m.set a name value)) := by
  -- the names that are there before and after
  let stays : String → Bool := fun other =>
    other ∈ OrderedMap.keys m ∧ other ∈ OrderedMap.keys (m.set a name value)
  have hstale : ∀ p ∈ a.controlledBy name, ∀ other ∈ p.staleNames (some value.toText),
      stays other = false := by
    intro p hp other hother
    obtain ⟨⟨v, hv, htext, q, hq, rfl⟩, -⟩ := Param.mem_staleNames_iff.1 hother
    have hnone := get?_set_of_unselected hnames hd hp hv
      (fun h => htext (congrArg some h.symm)) hq
    have hgone : q.name ∉ OrderedMap.keys (m.set a name value) :=
      OrderedMap.get?_eq_none_iff.1 hnone
    exact decide_eq_false fun h => hgone h.2
  have hkept : OrderedMap.KeepsOrder stays m (m.set a name value) := by
    rw [set_eq_foldl]
    exact List.foldlRecOn (a.controlledBy name) _ (OrderedMap.keepsOrder_insert m name value)
      fun _ h p hp => h.trans (keepsOrder_switchVariant (hstale p hp) _)
  calc (OrderedMap.keys (m.set a name value)).filter (· ∈ OrderedMap.keys m)
      = (OrderedMap.keys (m.set a name value)).filter stays :=
        List.filter_congr fun other hother => by simp [stays, hother]
    _ = (OrderedMap.keys m).filter stays := hkept fun other hother => (of_decide_eq_true hother).1
    _ = (OrderedMap.keys m).filter (· ∈ OrderedMap.keys (m.set a name value)) :=
        List.filter_congr fun other hother => by simp [stays, hother]

end Edits

end Params

/-! ## Rows -/

namespace ActionRow

/-- **What an edit does to a row.** Where no name is declared twice and the edited name is not
declared in a variant that it controls itself, the name has the value; the parameters of variants
that it does not select are gone, and those of the variants that it selects have their old values or
their defaults; nothing else is touched, and the names that stay keep their order.

**Proof sketch.** An edit writes the value and switches the parameters that the name controls. Each
of these removes the names of unselected variants and seeds the selected one
(`Params.switchVariant_eq`), and what one of them does the others do not undo, since their variants
declare other names (`Params.exists_get?_set`). No name is removed and added again, so that the
names that stay are never moved (`Params.filter_keys_set`). -/
theorem isEditOf_setParam {a : Action}
    (hnames : ((Param.declared a.params).map fun p => p.name).Nodup) {r : ActionRow}
    (hd : OrderedMap.Distinct r.params) {name : String}
    (hname : ∀ p ∈ a.controlledBy name, ∀ q ∈ Param.declaredInKind p.kind, q.name ≠ name)
    (value : EditValue) :
    Params.IsEditOf a name value r.params (r.setParam a name value).params where
  edited := (Params.get?_set hname r.params value).trans (if_pos rfl)
  unselected _ hp _ hv htext _ hq := Params.get?_set_of_unselected hnames hd hp hv htext hq
  selected p hp v hv q hq hvalue := by
    have hin := (Param.mem_declared_of_mem_variants (List.mem_singleton_self p)
      (Param.mem_variants_of_activeVariant? hv).1 (Params.mem_declared_of_mem hq)).1
    obtain ⟨w, hw⟩ : ∃ w, (OrderedMap.get? r.params q.name).or q.defaultValue? = some w :=
      Option.isSome_iff_exists.1 (by simp [Param.isSome_defaultValue? hvalue])
    refine ⟨w, ?_, hw⟩
    rw [← hw]
    exact Params.get?_set_of_selected hnames hd hp hv hq hvalue (hname p hp q hin)
  untouched other hne hother :=
    (Params.get?_set hother r.params value).trans (if_neg fun h => hne h.symm)
  order := Params.filter_keys_set hnames hd value

/-- An action whose provider controls a channel or the parameters of a mail. -/
def messageAction : Action where
  type := "message"
  params :=
    [{ name := "provider", kind := .string },
      { name := "settings", kind := .variant "provider"
          [⟨"slack", [{ name := "channel", default := some (.str "#ops"), kind := .string },
            { name := "thread", kind := .string }]⟩,
            ⟨"email", [{ name := "to", kind := .stringArray },
              { name := "html", kind := .boolean }]⟩] },
      { name := "note", kind := .string }]

/-- A row of that action that is switched from mail to a channel loses the parameters of the mail; a
thread that was left in it keeps its value and its place, and what is not declared at all stays. -/
theorem isEditOf_setParam_provider :
    let row : ActionRow :=
      { id := "action-1"
        type := "message"
        params := [("to", .text "a, b"), ("thread", .text "7"), ("provider", .text "email"),
          ("page", .flag true), ("note", .text "x")] }
    let row' := row.setParam messageAction "provider" (.text "slack")
    ((Param.declared messageAction.params).map fun p => p.name).Nodup ∧
      OrderedMap.Distinct row.params ∧
      (∀ p ∈ messageAction.controlledBy "provider", ∀ q ∈ Param.declaredInKind p.kind,
        q.name ≠ "provider") ∧
      Params.IsEditOf messageAction "provider" (.text "slack") row.params row'.params ∧
      OrderedMap.keys row'.params = ["thread", "provider", "page", "note", "channel"] := by
  intro row row'
  have hnames : ((Param.declared messageAction.params).map fun p => p.name).Nodup := by decide
  have hd : OrderedMap.Distinct row.params := by
    unfold OrderedMap.Distinct
    decide
  have hname : ∀ p ∈ messageAction.controlledBy "provider", ∀ q ∈ Param.declaredInKind p.kind,
      q.name ≠ "provider" := by
    intro p hp
    obtain rfl : p = messageAction.params[1] := by
      simpa [messageAction, Action.controlledBy, ParamKind.controller?] using hp
    decide
  exact ⟨hnames, hd, hname, isEditOf_setParam hnames hd hname _, rfl⟩

end ActionRow

end RuleEditor
