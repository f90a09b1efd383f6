import RuleEditor.Proofs.Form.ActionRow.Active

/-!
# What the controllers decide

What is active depends on a few values only: those of the controllers of the parameters at the top
and, from there, of those in the variants that are selected. An action tells where these values are
to be found: in the list of parameters that the controlled one belongs to, or further out.

## Main definitions

* `Catalog.Param.Consults` — a value is looked at to tell what is active.
* `Catalog.Param.DeclaresValue` — a list of parameters has one of a name that holds a value.
* `Catalog.Param.ControlledWithin` — controllers are names of a scope or of the lists in between.
* `Catalog.Param.ControlledBySiblings` — controllers belong to the list of what they control.

## Main results

* `Catalog.Param.inductionOnVariants` — induction from variants to what they belong to.
* `Catalog.Param.active_congr` — the values of the controllers decide what is active.
* `Catalog.Param.exists_mem_active_of_consults` — controllers among siblings are active themselves.
-/

set_option relaxedAutoImplicit false
set_option autoImplicit false

namespace RuleEditor.Catalog.Param

/-- The parameters of a variant are smaller than the parameter that the variant belongs to. -/
lemma sizeOf_params_lt {p : Param} {v : Variant} (hv : v ∈ p.kind.variants) :
    sizeOf v.params < sizeOf p := by
  obtain ⟨info, kind⟩ := p
  cases kind with
  | variant controller variants =>
    have hlt : sizeOf v < sizeOf variants := List.sizeOf_lt_of_mem hv
    obtain ⟨discriminator, params⟩ := v
    simp only [Variant.mk.sizeOf_spec, Param.mk.sizeOf_spec, ParamKind.variant.sizeOf_spec] at hlt ⊢
    omega
  | _ => exact absurd hv List.not_mem_nil

/-- What holds of a list of parameters if it holds of those of all their variants holds of every
list. This is the induction that follows the tree of declarations list by list; the proofs below
need no recursion through kinds and variants of their own. -/
@[elab_as_elim]
theorem inductionOnVariants {motive : List Param → Prop}
    (step : ∀ params, (∀ p ∈ params, ∀ v ∈ p.kind.variants, motive v.params) → motive params)
    (params : List Param) : motive params :=
  step params fun p hp v hv =>
    have : sizeOf v.params < sizeOf params :=
      Nat.lt_trans (sizeOf_params_lt hv) (List.sizeOf_lt_of_mem hp)
    inductionOnVariants step v.params
termination_by sizeOf params

/-! ## What is looked at -/

/-- The value of a name is looked at to tell which of a list of parameters are active: it is the
controller of one of them, or of one in a selected variant. Controllers in variants that are not
selected are not looked at. -/
inductive Consults (m : Params) : List Param → String → Prop where
  /-- The controller of a parameter of the list. -/
  | here {params : List Param} {p : Param} {c : String} (hp : p ∈ params)
      (hc : p.kind.controller? = some c) : Consults m params c
  /-- A controller within the selected variant of a parameter of the list. -/
  | inside {params : List Param} {p : Param} {c name : String} {v : Variant} (hp : p ∈ params)
      (hc : p.kind.controller? = some c) (hv : p.activeVariant? (m.textOf c) = some v)
      (h : Consults m v.params name) : Consults m params name

/-- **The values of the controllers decide what is active.** Two maps that give one text to every
controller that is consulted make the same parameters active; all other values, edited or not, have
no part in it. -/
theorem active_congr {m m' : Params} {params : List Param}
    (h : ∀ c, Consults m params c → m'.textOf c = m.textOf c) :
    active m' params = active m params := by
  induction params using inductionOnVariants with
  | step params ih =>
    rw [active_eq_flatMap, active_eq_flatMap]
    refine List.flatMap_congr fun p hp => ?_
    cases hc : p.kind.controller? with
    | none =>
      rw [activeFor_of_isVariant (ParamKind.isVariant_eq_false_iff.2 hc),
        activeFor_of_isVariant (ParamKind.isVariant_eq_false_iff.2 hc)]
    | some c =>
      rw [activeFor_of_controller? hc, activeFor_of_controller? hc, h c (.here hp hc)]
      cases hv : p.activeVariant? (m.textOf c) with
      | none => rfl
      | some v =>
        have hinside := ih p hp v (mem_variants_of_activeVariant? hv).1
          fun c' hc' => h c' (.inside hp hc hv hc')
        simp only [Option.map_some, hinside]

/-- What is looked at is the controller of a declared parameter. -/
lemma exists_mem_declared_of_consults {m : Params} {params : List Param} {c : String}
    (h : Consults m params c) : ∃ p ∈ declared params, p.kind.controller? = some c := by
  induction h with
  | here hp hc => exact ⟨_, Params.mem_declared_of_mem hp, hc⟩
  | inside hp _ hv _ ih =>
    obtain ⟨q, hq, hc⟩ := ih
    exact ⟨q, (mem_declared_of_mem_variants hp (mem_variants_of_activeVariant? hv).1 hq).2, hc⟩

/-! ## Where the controllers are -/

/-- A list of parameters has one of a name that holds a value. Such a parameter is active whenever
the list is, so that its name always has a value in a filled row. -/
def DeclaresValue (params : List Param) (name : String) : Prop :=
  ∃ p ∈ params, p.kind.isVariant = false ∧ p.name = name

/-- All controllers of a list of parameters are names of the scope; those in a variant may also be
names of parameters of the variant that hold values. The scope is what is known to have a value
before the list is looked at, and it grows with each variant that is entered. -/
inductive ControlledWithin : (String → Prop) → List Param → Prop where
  /-- This holds of the parameters of the list and in their variants. -/
  | intro {scope : String → Prop} {params : List Param}
      (controllers : ∀ p ∈ params, ∀ c, p.kind.controller? = some c → scope c)
      (variants : ∀ p ∈ params, ∀ v ∈ p.kind.variants,
        ControlledWithin (fun name => scope name ∨ DeclaresValue v.params name) v.params) :
      ControlledWithin scope params

/-- Each controller is the name of a parameter that holds a value and stands in the same list as
what it controls, at the top and in all variants. With this, what a controller decides can never
depend on a value that is not active itself. -/
inductive ControlledBySiblings : List Param → Prop where
  /-- This holds of the parameters of the list and in their variants. -/
  | intro {params : List Param}
      (controllers : ∀ p ∈ params, ∀ c, p.kind.controller? = some c → DeclaresValue params c)
      (variants : ∀ p ∈ params, ∀ v ∈ p.kind.variants, ControlledBySiblings v.params) :
      ControlledBySiblings params

/-- The controllers are within every scope that has the siblings in it. -/
lemma ControlledBySiblings.controlledWithin {scope : String → Prop} {params : List Param}
    (h : ControlledBySiblings params) (hscope : ∀ name, DeclaresValue params name → scope name) :
    ControlledWithin scope params := by
  induction h generalizing scope with
  | intro controllers _ ih =>
    exact .intro (fun p hp c hc => hscope c (controllers p hp c hc))
      fun p hp v hv => ih p hp v hv fun _ hname => .inr hname

/-- A name that a list declares with a value is that of an active parameter. -/
lemma DeclaresValue.exists_mem_active {params : List Param} {name : String}
    (h : DeclaresValue params name) (m : Params) : ∃ p ∈ active m params, p.name = name := by
  obtain ⟨p, hp, hvalue, hname⟩ := h
  exact ⟨p, mem_active_of_mem hp hvalue m, hname⟩

/-- What is looked at is in the scope or active. -/
lemma ControlledWithin.scope_or_exists_mem_active {scope : String → Prop} {m : Params}
    {params : List Param} {c : String} (h : ControlledWithin scope params)
    (hc : Consults m params c) : scope c ∨ ∃ p ∈ active m params, p.name = c := by
  induction hc generalizing scope with
  | here hp hc =>
    cases h with
    | intro controllers _ => exact .inl (controllers _ hp _ hc)
  | inside hp hc hv _ ih =>
    cases h with
    | intro _ variants =>
      rcases ih (variants _ hp _ (mem_variants_of_activeVariant? hv).1) with (hin | hin) | hin
      · exact .inl hin
      · obtain ⟨q, hq, hname⟩ := hin.exists_mem_active m
        exact .inr ⟨q, mem_active_of_selected hp hc hv hq, hname⟩
      · obtain ⟨q, hq, hname⟩ := hin
        exact .inr ⟨q, mem_active_of_selected hp hc hv hq, hname⟩

/-- Where the controllers are siblings, all that is looked at is active. So what is active is
decided by values that are active, and a value that is not shown changes nothing. -/
theorem exists_mem_active_of_consults {m : Params} {params : List Param} {c : String}
    (h : ControlledBySiblings params) (hc : Consults m params c) :
    ∃ p ∈ active m params, p.name = c := by
  rcases (h.controlledWithin fun _ hname => hname).scope_or_exists_mem_active hc with hin | hin
  · exact hin.exists_mem_active m
  · exact hin

end RuleEditor.Catalog.Param
