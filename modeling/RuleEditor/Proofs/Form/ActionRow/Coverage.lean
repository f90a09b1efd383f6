import RuleEditor.Proofs.Form.ActionRow.Reopening
import RuleEditor.Proofs.Form.ActionRow.Filling

/-!
# The names of a row

Seeding goes down the tree of declarations and selects variants by the values that it has added so
far, while activity is told from the row as it is in the end. The two agree where each controller is
declared in the list of what it controls or further out: a controller then has its value before it
is looked at and keeps it, whatever other declarations repeat its name. So the row of a new action
has the names of its active parameters and no others, and the row of a stored action has, besides
them, the names that were stored.

## Main definitions

* `Params.Extends` — a map holds all that another one does.

## Main results

* `Params.mem_keys_of_seedVariants` — filling up variants adds names of active parameters only.
* `ActionRow.mem_keys_ofAction_and_ofStored_iff` — the names of rows that were not edited.
-/

set_option relaxedAutoImplicit false
set_option autoImplicit false

namespace RuleEditor

open Catalog

namespace Params

variable {m m' m'' : Params} {name : String}

/-! ## Maps that hold more -/

/-- The second map holds all that the first one does, with the same values. Seeding extends a map
(`Seeds.extends`), so that a controller that has a value when it is looked at selects the same
variant in the end. -/
def Extends (m m' : Params) : Prop :=
  ∀ name value, OrderedMap.get? m name = some value → OrderedMap.get? m' name = some value

/-- A map holds all that it does. -/
lemma Extends.refl (m : Params) : Extends m m := fun _ _ h => h

/-- What holds all of a map that holds all of another one holds all of that one. -/
lemma Extends.trans (h : Extends m m') (h' : Extends m' m'') : Extends m m'' :=
  fun name value hvalue => h' name value (h name value hvalue)

/-- Seeding a map leaves all that it holds. -/
lemma Seeds.extends {declarations : List Param} (h : Seeds declarations m m') : Extends m m' :=
  fun _ _ hvalue => h.get?_of_eq_some hvalue

/-- A value that is there is the same in the map that holds more. -/
lemma Extends.textOf_eq (h : Extends m m') (hname : OrderedMap.contains m name = true) :
    m'.textOf name = m.textOf name := by
  obtain ⟨value, hvalue⟩ := Option.isSome_iff_exists.1 hname
  rw [textOf, textOf, h name value hvalue, hvalue]

end Params

/-- A parameter with a default holds a value. -/
lemma Catalog.Param.isVariant_eq_false_of_isSome {p : Param} (h : p.defaultValue?.isSome = true) :
    p.kind.isVariant = false := by
  obtain ⟨info, kind⟩ := p
  cases kind with
  | variant => exact absurd h (by simp [defaultValue?])
  | _ => rfl

namespace Params

variable {m final : Params} {params : List Param} {scope : String → Prop} {name : String}

/-! ## The names that are added -/

/-- Adding the defaults of a list adds names of its parameters that hold values. -/
lemma mem_keys_or_declaresValue (h : name ∈ OrderedMap.keys (seedDefaults params m)) :
    name ∈ OrderedMap.keys m ∨ Param.DeclaresValue params name := by
  rw [OrderedMap.mem_keys_iff_contains] at h ⊢
  rcases seeds_seedDefaults params m name with hsame | ⟨-, p, hp, hname, hdefault⟩
  · rw [OrderedMap.contains, hsame] at h
    exact .inl h
  · rw [OrderedMap.contains, hdefault] at h
    exact .inr ⟨p, hp, Param.isVariant_eq_false_of_isSome h, hname⟩

/-- Filling up one parameter adds names of parameters that are active in the end, if this holds of
each of its variants. -/
lemma mem_keys_of_seedKind {p : Param} (hp : p ∈ params)
    (hcontroller : ∀ c, p.kind.controller? = some c → OrderedMap.contains m c = true)
    (hvariants : ∀ v ∈ p.kind.variants, Extends (seed v.params m) final →
      name ∈ OrderedMap.keys (seed v.params m) →
        name ∈ OrderedMap.keys m ∨ ∃ q ∈ Param.active final v.params, q.name = name)
    (hfinal : Extends (seedKind p.kind m) final) (h : name ∈ OrderedMap.keys (seedKind p.kind m)) :
    name ∈ OrderedMap.keys m ∨ ∃ q ∈ Param.active final params, q.name = name := by
  cases hc : p.kind.controller? with
  | none =>
    rw [seedKind_of_isVariant (ParamKind.isVariant_eq_false_iff.2 hc)] at h
    exact .inl h
  | some c =>
    -- the controller keeps its value, so that it selects the same variant in the end
    have htext : final.textOf c = m.textOf c :=
      ((seeds_seedKind p.kind m).extends.trans hfinal).textOf_eq (hcontroller c hc)
    rw [seedKind_of_controller? hc] at hfinal h
    cases hv : p.activeVariant? (m.textOf c) with
    | none =>
      rw [hv] at h
      exact .inl h
    | some v =>
      rw [hv] at hfinal h
      refine (hvariants v (Param.mem_variants_of_activeVariant? hv).1 hfinal h).imp_right ?_
      rintro ⟨q, hq, hname⟩
      exact ⟨q, Param.mem_active_of_selected hp hc (htext.symm ▸ hv) hq, hname⟩

/-- **Filling up variants adds names of active parameters only**, namely of those that are active in
any map that holds all that there is in the end.

**Proof sketch.** Induction on the tree and, within a list, on its parameters. A controller has a
value when it is looked at, so that the variant it selects then is the one that is selected in the
end (`mem_keys_of_seedKind`). What is added for it are the defaults of its own parameters, which are
active with it, and what the induction hypothesis speaks of. -/
theorem mem_keys_of_seedVariants (hwithin : Param.ControlledWithin scope params)
    (hscope : ∀ name, scope name → OrderedMap.contains m name = true)
    (hfinal : Extends (seedVariants params m) final)
    (h : name ∈ OrderedMap.keys (seedVariants params m)) :
    name ∈ OrderedMap.keys m ∨ ∃ q ∈ Param.active final params, q.name = name := by
  induction hwithin generalizing m with
  | @intro scope params controllers variants ih =>
    -- the parameters that are still to be filled up, whatever was added for those before
    suffices hsuffix : ∀ rest : List Param, (∀ p ∈ rest, p ∈ params) → ∀ m : Params,
        (∀ name, scope name → OrderedMap.contains m name = true) →
        Extends (seedVariants rest m) final → name ∈ OrderedMap.keys (seedVariants rest m) →
        name ∈ OrderedMap.keys m ∨ ∃ q ∈ Param.active final params, q.name = name from
      hsuffix params (fun _ hp => hp) m hscope hfinal h
    intro rest
    induction rest with
    | nil => exact fun _ _ _ _ h => .inl h
    | cons p rest ihrest =>
      intro hsub m hscope hfinal h
      rw [seedVariants_cons] at hfinal h
      have hp : p ∈ params := hsub p List.mem_cons_self
      have hkind : Extends (seedKind p.kind m) final :=
        (seeds_seedVariants rest _).extends.trans hfinal
      have hrest := ihrest (fun q hq => hsub q (List.mem_cons_of_mem _ hq)) (seedKind p.kind m)
        (fun name hname => (seeds_seedKind p.kind m).contains (hscope name hname)) hfinal h
      refine hrest.elim (fun hin => ?_) .inr
      refine mem_keys_of_seedKind hp (fun c hc => hscope c (controllers p hp c hc))
        (fun v hv hseed hname => ?_) hkind hin
      have hinside := ih p hp v hv (m := seedDefaults v.params m)
        (fun _ hname => contains_seedDefaults_of_scope hscope hname) hseed hname
      refine hinside.elim (fun hin => ?_) .inr
      exact (mem_keys_or_declaresValue hin).imp_right fun hdeclares =>
        hdeclares.exists_mem_active final

end Params

/-! ## Rows that were not edited -/

namespace ActionRow

variable {a : Action} {name : String}

/-- Laying stored values over others adds the names that were stored. -/
lemma mem_keys_insertMany_editFormOf {m : Params} {stored : Json.Object} :
    name ∈ OrderedMap.keys (OrderedMap.insertMany m
        (stored.map fun (name, v) => (name, editFormOf a name v))) ↔
      name ∈ OrderedMap.keys m ∨ name ∈ OrderedMap.keys stored := by
  rw [OrderedMap.mem_keys_insertMany]
  simp [OrderedMap.keys]

section

variable (hwithin : Param.ControlledWithin (Param.DeclaresValue a.params) a.params)

include hwithin

/-- The names of the row of a new action are those of its active parameters. -/
lemma mem_keys_ofAction_iff (id : String) :
    name ∈ OrderedMap.keys (ofAction id a).params ↔
      ∃ p ∈ a.active (ofAction id a).params, p.name = name := by
  constructor
  · intro h
    have hscope : ∀ name, Param.DeclaresValue a.params name →
        OrderedMap.contains (Params.seedDefaults a.params []) name = true :=
      fun _ hname => Params.contains_seedDefaults hname []
    rcases Params.mem_keys_of_seedVariants hwithin hscope (.refl _) h with hin | hactive
    · rcases Params.mem_keys_or_declaresValue hin with hnil | hdeclares
      · exact absurd hnil List.not_mem_nil
      · exact hdeclares.exists_mem_active _
    · exact hactive
  · rintro ⟨p, hp, rfl⟩
    exact OrderedMap.mem_keys_iff_contains.2 (fills_ofAction hwithin id p hp)

/-- The names of the row of a stored action are those of its active parameters and those that were
stored. -/
lemma mem_keys_ofKnown_iff (id : String) (stored : Json.Object) :
    name ∈ OrderedMap.keys (ofKnown id a stored).params ↔
      (∃ p ∈ a.active (ofKnown id a stored).params, p.name = name) ∨
        name ∈ OrderedMap.keys stored := by
  constructor
  · intro h
    have hscope : ∀ entries name, Param.DeclaresValue a.params name → OrderedMap.contains
        (OrderedMap.insertMany (Params.seedDefaults a.params []) entries) name = true :=
      fun entries _ hname =>
        OrderedMap.contains_insertMany (Params.contains_seedDefaults hname []) entries
    rcases Params.mem_keys_of_seedVariants hwithin (hscope _) (.refl _) h with hin | hactive
    · rcases mem_keys_insertMany_editFormOf.1 hin with hdefault | hstored
      · rcases Params.mem_keys_or_declaresValue hdefault with hnil | hdeclares
        · exact absurd hnil List.not_mem_nil
        · exact .inl (hdeclares.exists_mem_active _)
      · exact .inr hstored
    · exact .inl hactive
  · rintro (⟨p, hp, rfl⟩ | hstored)
    · exact OrderedMap.mem_keys_iff_contains.2 (fills_ofKnown hwithin id stored p hp)
    · have hlaid := (mem_keys_insertMany_editFormOf (a := a)
        (m := Params.seedDefaults a.params [])).2 (.inr hstored)
      rw [OrderedMap.mem_keys_iff_contains] at hlaid ⊢
      exact (Params.seeds_seedVariants a.params _).contains hlaid

/-- **The names of rows that were not edited.** Let each controller be declared with a value in the
list of what it controls or further out. The row of a new action has the names of its active
parameters and no others. The row of a stored action of the type has those of its active parameters
and those that were stored; all names at the top that hold values are active. So a row never lacks a
value for what is shown, and a new one has none for what is not.

**Proof sketch.** All that is active has a value (`fills_ofAction`, `fills_ofKnown`). The defaults
at the top are those of active parameters, and filling up variants adds no names but those of
parameters that are active in the end (`Params.mem_keys_of_seedVariants`). -/
theorem mem_keys_ofAction_and_ofStored_iff :
    (∀ id name, name ∈ OrderedMap.keys (ofAction id a).params ↔
        ∃ p ∈ a.active (ofAction id a).params, p.name = name) ∧
      ∀ (id : String) (catalog : Catalog) (stored : StoredAction),
        catalog.action? stored.type = some a →
          ∀ name, name ∈ OrderedMap.keys (ofStored id catalog stored).params ↔
            (∃ p ∈ a.active (ofStored id catalog stored).params, p.name = name) ∨
              name ∈ OrderedMap.keys stored.params := by
  refine ⟨fun id name => mem_keys_ofAction_iff hwithin id, fun id catalog stored hfound name => ?_⟩
  rw [ofStored, hfound]
  exact mem_keys_ofKnown_iff hwithin id stored.params

end

/-- What a report has besides its title, as long as its format is the long one. -/
def extraParams : List Param :=
  [{ name := "title", kind := .boolean }, { name := "footer", kind := .string }]

/-- What a long report has. -/
def longParams : List Param :=
  [{ name := "title", kind := .string },
    { name := "extras", kind := .variant "format" [⟨"long", extraParams⟩] }]

/-- An action whose format controls a variant and another one within it, where a name is declared
once more. -/
def reportAction : Action where
  type := "report"
  params :=
    [{ name := "format", default := some (.str "long"), kind := .string },
      { name := "layout", kind := .variant "format" [⟨"short", []⟩, ⟨"long", longParams⟩] }]

/-- The controllers of that action are declared further out. -/
lemma controlledWithin_reportAction :
    Param.ControlledWithin (Param.DeclaresValue reportAction.params) reportAction.params := by
  have hformat : Param.DeclaresValue reportAction.params "format" :=
    ⟨_, List.mem_cons_self, rfl, rfl⟩
  have hextra (scope : String → Prop) : Param.ControlledWithin scope extraParams := by
    refine .intro ?_ ?_ <;> simp [extraParams, ParamKind.controller?, ParamKind.variants]
  have hlong (scope : String → Prop) (h : scope "format") :
      Param.ControlledWithin scope longParams := by
    refine .intro ?_ ?_ <;> simp [longParams, ParamKind.controller?, ParamKind.variants, h, hextra]
  have hshort (scope : String → Prop) : Param.ControlledWithin scope [] := by
    refine .intro ?_ ?_ <;> simp
  refine .intro (fun p hp c hc => ?_) fun p hp v hv => ?_
  · obtain rfl : "format" = c := by
      rcases List.mem_pair.1 hp with rfl | rfl
      · exact absurd hc (Option.some_ne_none c).symm
      · exact Option.some.inj hc
    exact hformat
  · rcases List.mem_pair.1 hp with rfl | rfl
    · exact absurd hv List.not_mem_nil
    · rcases List.mem_pair.1 hv with rfl | rfl
      · exact hshort _
      · exact hlong _ (.inl hformat)

/-- The names of a new report are those of its active parameters, one of them twice; a stored report
in the short format has the format and what was stored. -/
theorem mem_keys_reportAction_iff :
    let catalog : Catalog := { actions := [reportAction] }
    let stored : StoredAction := ⟨"report", [("format", .str "short"), ("footer", .str "x")]⟩
    let row := ofStored "action-2" catalog stored
    Param.ControlledWithin (Param.DeclaresValue reportAction.params) reportAction.params ∧
      catalog.action? stored.type = some reportAction ∧
      (reportAction.active (ofAction "action-1" reportAction).params).map (fun p => p.name) =
        ["format", "title", "title", "footer"] ∧
      (∀ name, name ∈ OrderedMap.keys (ofAction "action-1" reportAction).params ↔
        ∃ p ∈ reportAction.active (ofAction "action-1" reportAction).params, p.name = name) ∧
      ∀ name, name ∈ OrderedMap.keys row.params ↔
        (∃ p ∈ reportAction.active row.params, p.name = name) ∨
          name ∈ OrderedMap.keys stored.params := by
  intro catalog stored row
  have hfound : catalog.action? stored.type = some reportAction := rfl
  obtain ⟨hnew, hstored⟩ := mem_keys_ofAction_and_ofStored_iff controlledWithin_reportAction
  exact ⟨controlledWithin_reportAction, hfound, rfl, hnew "action-1",
    hstored "action-2" catalog stored hfound⟩

end ActionRow

end RuleEditor
