import RuleEditor.Form.ActionRow.Stored
import RuleEditor.Proofs.Form.ActionRow.Controllers

/-!
# Rows in which nothing is missing

The parameters of a row are filled if there is a value for all that is active. Adding defaults fills
them, as long as each controller can be found in the list of what it controls or further out: a
controller has its value before it is looked at, and what has a value keeps it. So the rows of new
actions are filled, and so are those of stored actions whatever was stored.

## Main definitions

* `Params.Fills` — all that is active has a value.

## Main results

* `Params.Fills.congr` — values that are not looked at and not active do not matter.
* `Params.fills_seedVariants` — adding what is missing fills a list of parameters.
* `ActionRow.fills_ofAction`, `ActionRow.fills_ofKnown` — rows are filled when they are made.
-/

set_option relaxedAutoImplicit false
set_option autoImplicit false

namespace RuleEditor

open Catalog

/-- A parameter that holds a value has a default. -/
lemma Catalog.Param.isSome_defaultValue? {p : Param} (h : p.kind.isVariant = false) :
    p.defaultValue?.isSome = true := by
  obtain ⟨info, kind⟩ := p
  unfold defaultValue?
  cases kind with
  | variant => exact absurd h (by simp [ParamKind.isVariant])
  | _ =>
    -- the choices decide first, then the kind; either way a value comes out
    dsimp only
    split_ifs <;> first
      | rfl
      | split <;> rfl

namespace Params

variable {m m' : Params} {params : List Param} {scope : String → Prop}

/-- All that is active in a list of parameters under their own values has a value. What is active
depends on the values of controllers, so the map that is asked for values is also the one that
decides which values are asked for. -/
def Fills (m : Params) (params : List Param) : Prop :=
  ∀ q ∈ Param.active m params, OrderedMap.contains m q.name = true

/-- A list of parameters is filled exactly if, for each of them, all that is active for it has a
value. -/
lemma fills_iff : Fills m params ↔
    ∀ p ∈ params, ∀ q ∈ Param.activeFor m p, OrderedMap.contains m q.name = true := by
  simp only [Fills, Param.active_eq_flatMap, List.mem_flatMap, forall_exists_index, and_imp]
  exact ⟨fun h p hp q hq => h q p hp hq, fun h q p hp hq => h p hp q hq⟩

/-- Where a list is filled, so are the parameters of a variant that is selected. -/
lemma Fills.selected {p : Param} {c : String} {v : Variant} (h : Fills m params) (hp : p ∈ params)
    (hc : p.kind.controller? = some c) (hv : p.activeVariant? (m.textOf c) = some v) :
    Fills m v.params :=
  fun q hq => h q (Param.mem_active_of_selected hp hc hv hq)

/-- Maps with one value for a name have one text for it. -/
lemma textOf_congr {name : String} (h : OrderedMap.get? m' name = OrderedMap.get? m name) :
    m'.textOf name = m.textOf name := by
  rw [textOf, h, textOf]

/-- **Values that are not looked at and not active do not matter.** If a second map agrees with a
filled one on the controllers that are consulted and on the names that are active, it is filled too:
the controllers make the same names active, and these have values. -/
theorem Fills.congr (h : Fills m params)
    (hconsults : ∀ c, Param.Consults m params c → OrderedMap.get? m' c = OrderedMap.get? m c)
    (hactive : ∀ q ∈ Param.active m params, OrderedMap.get? m' q.name = OrderedMap.get? m q.name) :
    Fills m' params := by
  have hsame : Param.active m' params = Param.active m params :=
    Param.active_congr fun c hc => textOf_congr (hconsults c hc)
  intro q hq
  rw [hsame] at hq
  rw [OrderedMap.contains, hactive q hq]
  exact h q hq

/-- Seeding leaves a name alone that has a value. -/
lemma Seeds.get?_of_contains {declarations : List Param} {name : String}
    (h : Seeds declarations m m') (hname : OrderedMap.contains m name = true) :
    OrderedMap.get? m' name = OrderedMap.get? m name := by
  obtain ⟨value, hvalue⟩ := Option.isSome_iff_exists.1 hname
  rw [hvalue, h.get?_of_eq_some hvalue]

/-- What has a value has one after seeding. -/
lemma Seeds.contains {declarations : List Param} {name : String} (h : Seeds declarations m m')
    (hname : OrderedMap.contains m name = true) : OrderedMap.contains m' name = true := by
  rw [OrderedMap.contains, h.get?_of_contains hname]
  exact hname

/-- What is filled stays so while values are added. -/
lemma Fills.of_seeds {declarations : List Param} (h : Fills m params)
    (hwithin : Param.ControlledWithin scope params)
    (hscope : ∀ name, scope name → OrderedMap.contains m name = true)
    (hseeds : Seeds declarations m m') : Fills m' params := by
  refine h.congr (fun c hc => hseeds.get?_of_contains ?_)
    fun q hq => hseeds.get?_of_contains (h q hq)
  rcases hwithin.scope_or_exists_mem_active hc with hin | ⟨q, hq, rfl⟩
  · exact hscope c hin
  · exact h q hq

/-! ## Adding what is missing -/

/-- Adding the defaults of a list of parameters gives all that hold values one. -/
lemma contains_seedDefaults {name : String} (h : Param.DeclaresValue params name) (m : Params) :
    OrderedMap.contains (seedDefaults params m) name = true := by
  obtain ⟨p, hp, hvalue, rfl⟩ := h
  induction params generalizing m with
  | nil => exact absurd hp List.not_mem_nil
  | cons q rest ih =>
    rcases List.mem_cons.1 hp with rfl | hp'
    · refine (seeds_seedDefaults rest (seedDefault m p)).contains ?_
      obtain ⟨value, hdefault⟩ := Option.isSome_iff_exists.1 (Param.isSome_defaultValue? hvalue)
      unfold seedDefault
      split_ifs with hcontains
      · exact hcontains
      · simp [hdefault, OrderedMap.contains, OrderedMap.get?_insert]
    · exact ih (seedDefault m q) hp'

/-- Adding the defaults of a list of parameters completes its scope: the names of the scope further
out have values already, and those of the list get them. -/
lemma contains_seedDefaults_of_scope {name : String}
    (hscope : ∀ name, scope name → OrderedMap.contains m name = true)
    (hname : scope name ∨ Param.DeclaresValue params name) :
    OrderedMap.contains (seedDefaults params m) name = true := by
  rcases hname with hin | hdeclares
  · exact (seeds_seedDefaults params m).contains (hscope name hin)
  · exact contains_seedDefaults hdeclares m

/-- Adding all that is missing is seeding. -/
lemma seeds_seed (params : List Param) (m : Params) :
    Seeds (Param.declared params) m (seed params m) :=
  ((seeds_seedDefaults params m).mono fun _ hp => mem_declared_of_mem hp).trans
    (seeds_seedVariants params _)

/-- The variants of a list of parameters are filled up one parameter after the other. -/
lemma seedVariants_cons (p : Param) (rest : List Param) (m : Params) :
    seedVariants (p :: rest) m = seedVariants rest (seedKind p.kind m) := by
  obtain ⟨info, kind⟩ := p
  rw [seedVariants]

/-- For a parameter that holds a value there are no variants to fill up. -/
lemma seedKind_of_isVariant {p : Param} (h : p.kind.isVariant = false) (m : Params) :
    seedKind p.kind m = m := by
  obtain ⟨info, kind⟩ := p
  cases kind with
  | variant => exact absurd h (by simp [ParamKind.isVariant])
  | _ => rfl

/-- Filling up the variants of a parameter is filling up the selected one. -/
lemma seedKind_of_controller? {p : Param} {c : String} (hc : p.kind.controller? = some c)
    (m : Params) :
    seedKind p.kind m =
      ((p.activeVariant? (m.textOf c)).map fun v => seed v.params m).getD m := by
  obtain ⟨info, kind⟩ := p
  cases kind with
  | variant controller variants =>
    obtain rfl := Option.some.inj hc
    exact Param.eq_of_stops_at_selected (f := fun variants => seedSelected _ variants m)
      (g := fun v => seed v.params m) (fun ⟨_, _⟩ _ => by rw [seedSelected, seed]) variants
  | _ => exact absurd hc (by simp [ParamKind.controller?])

/-- Filling up a parameter fills it, if this fills each of its variants. -/
lemma fills_seedKind {p : Param}
    (hvalue : p.kind.isVariant = false → OrderedMap.contains m p.name = true)
    (hcontroller : ∀ c, p.kind.controller? = some c → OrderedMap.contains m c = true)
    (hvariants : ∀ v ∈ p.kind.variants, Fills (seed v.params m) v.params) :
    Fills (seedKind p.kind m) [p] := by
  rw [fills_iff]
  intro _ hp q hq
  rw [List.mem_singleton.1 hp] at hq
  have hseeds := seeds_seedKind p.kind m
  cases hc : p.kind.controller? with
  | none =>
    have hvariant := ParamKind.isVariant_eq_false_iff.2 hc
    rw [Param.activeFor_of_isVariant hvariant, List.mem_singleton] at hq
    rw [hq]
    exact hseeds.contains (hvalue hvariant)
  | some c =>
    -- the text that selects is the same after the variant was filled up
    have htext := textOf_congr (hseeds.get?_of_contains (hcontroller c hc))
    rw [Param.activeFor_of_controller? hc, htext] at hq
    cases hv : p.activeVariant? (m.textOf c) with
    | none =>
      rw [hv] at hq
      exact absurd hq List.not_mem_nil
    | some v =>
      have hkind : seedKind p.kind m = seed v.params m := by
        rw [seedKind_of_controller? hc, hv, Option.map_some, Option.getD_some]
      rw [hv, hkind] at hq
      rw [hkind]
      exact hvariants v (Param.mem_variants_of_activeVariant? hv).1 q hq

/-- **Adding what is missing fills a list of parameters**, given the values of the list itself and
those of the scope in which its controllers are.

**Proof sketch.** Induction on the tree and, within a list, on its parameters. A controller has a
value when it is looked at, and keeps it; so what is selected then is selected in the end, and it is
filled by the induction hypothesis, since its own defaults were added first (`fills_seedKind`). What
was filled stays so when the rest of the list is filled up (`Fills.of_seeds`). -/
theorem fills_seedVariants (hwithin : Param.ControlledWithin scope params)
    (hscope : ∀ name, scope name → OrderedMap.contains m name = true)
    (hvalues : ∀ name, Param.DeclaresValue params name → OrderedMap.contains m name = true) :
    Fills (seedVariants params m) params := by
  induction hwithin generalizing m with
  | @intro scope params controllers variants ih =>
    -- the parameters that are still to be filled up, whatever was added for those before
    suffices h : ∀ (rest : List Param), (∀ p ∈ rest, p ∈ params) → ∀ m : Params,
        (∀ name, scope name → OrderedMap.contains m name = true) →
        (∀ name, Param.DeclaresValue params name → OrderedMap.contains m name = true) →
        Fills (seedVariants rest m) rest from
      h params (fun _ hp => hp) m hscope hvalues
    intro rest
    induction rest with
    | nil => exact fun _ _ _ _ q hq => absurd hq List.not_mem_nil
    | cons p rest ihrest =>
      intro hsub m hscope hvalues
      have hp : p ∈ params := hsub p List.mem_cons_self
      have hkind := seeds_seedKind p.kind m
      have hfirst : Fills (seedKind p.kind m) [p] := by
        refine fills_seedKind (fun hvalue => hvalues p.name ⟨p, hp, hvalue, rfl⟩)
          (fun c hc => hscope c (controllers p hp c hc)) fun v hv => ?_
        exact ih p hp v hv (fun _ hname => contains_seedDefaults_of_scope hscope hname)
          fun _ hname => contains_seedDefaults hname m
      have hrest : Fills (seedVariants rest (seedKind p.kind m)) rest :=
        ihrest (fun q hq => hsub q (List.mem_cons_of_mem _ hq)) (seedKind p.kind m)
          (fun name hname => hkind.contains (hscope name hname))
          fun name hname => hkind.contains (hvalues name hname)
      have hone : Param.ControlledWithin scope [p] := by
        refine .intro (fun q hq => ?_) fun q hq => ?_ <;> rw [List.mem_singleton.1 hq]
        · exact controllers p hp
        · exact variants p hp
      have hkept : Fills (seedVariants rest (seedKind p.kind m)) [p] :=
        hfirst.of_seeds hone (fun name hname => hkind.contains (hscope name hname))
          (seeds_seedVariants rest _)
      obtain ⟨info, kind⟩ := p
      rw [seedVariants, fills_iff]
      intro q hq
      rcases List.mem_cons.1 hq with rfl | hq
      · exact fills_iff.1 hkept _ List.mem_cons_self
      · exact fills_iff.1 hrest q hq

/-- Adding all that is missing fills a list of parameters, given the values of the scope that the
list does not have itself. -/
lemma fills_seed (hwithin : Param.ControlledWithin scope params)
    (hscope : ∀ name, scope name →
      OrderedMap.contains m name = true ∨ Param.DeclaresValue params name) :
    Fills (seed params m) params :=
  fills_seedVariants hwithin
    (fun name hname => (hscope name hname).elim (seeds_seedDefaults params m).contains
      fun hin => contains_seedDefaults hin m)
    fun _ hname => contains_seedDefaults hname m

end Params

/-! ## Rows that were not edited -/

namespace ActionRow

variable {a : Action}
  (h : Param.ControlledWithin (Param.DeclaresValue a.params) a.params)

include h

/-- The row of a new action has all that is active. The hypothesis is that each controller is the
name of a parameter that holds a value and stands in the list of what it controls or in one further
out. -/
theorem fills_ofAction (id : String) : (ofAction id a).params.Fills a.params :=
  Params.fills_seed h fun _ hname => .inr hname

/-- The row of a stored action has all that is active, whatever was stored: the stored values are
laid over the defaults, and what they make active is added behind them. -/
theorem fills_ofKnown (id : String) (stored : Json.Object) :
    (ofKnown id a stored).params.Fills a.params :=
  Params.fills_seedVariants h
    (fun _ hname => OrderedMap.contains_insertMany (Params.contains_seedDefaults hname []) _)
    fun _ hname => OrderedMap.contains_insertMany (Params.contains_seedDefaults hname []) _

end ActionRow

end RuleEditor
