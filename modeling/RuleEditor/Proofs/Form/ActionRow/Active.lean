import Mathlib.Data.List.Flatten
import Mathlib.Data.List.Nodup
import RuleEditor.Proofs.Form.ActionRow.Seeding

/-!
# Active parameters

What is active is put together from the declarations at the top, one after the other: a parameter
that holds a value stands for itself, and one of variants for what is active in the variant that is
selected. Where no name is declared twice, the declarations in the variants of one parameter have
no name in common with those of another, nor with a parameter at the top, so that a name says which
variant has to be selected for it to be active.

## Main definitions

* `Catalog.Param.activeFor` — the active parameters that stand for a declaration.

## Main results

* `Catalog.Param.active_eq_flatMap` — what is active, one declaration after the other.
* `Catalog.Param.activeFor_of_controller?` — what is active for a parameter of variants.
* `Catalog.Param.activeVariant?_of_mem_active` — what has to be selected for a name to be active.
-/

set_option relaxedAutoImplicit false
set_option autoImplicit false

namespace RuleEditor.Catalog

/-- A kind holds a value exactly if it has no controller. -/
lemma ParamKind.isVariant_eq_false_iff {kind : ParamKind} :
    kind.isVariant = false ↔ kind.controller? = none := by
  cases kind <;> simp [isVariant, controller?]

namespace Param

/-! ## One declaration after the other -/

/-- The active parameters that stand for a declaration: the declaration itself if it holds a value,
and what is active in the selected variant if it is one of variants. -/
def activeFor (m : Params) (p : Param) : List Param := activeOfKind m p.toParamInfo p.kind

/-- What is active is what is active for each of the declarations, one after the other. With this
equation the recursion through kinds and variants is left behind: what is active for one declaration
is looked up (`activeFor_of_controller?`). -/
theorem active_eq_flatMap (m : Params) (params : List Param) :
    active m params = params.flatMap (activeFor m) := by
  induction params with
  | nil => rfl
  | cons p rest ih =>
    obtain ⟨info, kind⟩ := p
    rw [active, ih, List.flatMap_cons]
    rfl

/-- A parameter that holds a value stands for itself. -/
lemma activeFor_of_isVariant {p : Param} (h : p.kind.isVariant = false) (m : Params) :
    activeFor m p = [p] := by
  obtain ⟨info, kind⟩ := p
  cases kind with
  | variant controller variants => exact absurd h (by simp [ParamKind.isVariant])
  | _ => rfl

/-- A recursion on variants that stops at the first one with the text that selects is the same as
looking that one up. -/
lemma eq_of_stops_at_selected {α : Type} {f : List Variant → α} {g : Variant → α}
    {selected : Option String}
    (hcons : ∀ v rest, f (v :: rest) = if selected = some v.discriminator then g v else f rest)
    (variants : List Variant) :
    f variants = ((selected.bind fun text => variants.find? (·.discriminator = text)).map g).getD
      (f []) := by
  induction variants with
  | nil => cases selected <;> rfl
  | cons v rest ih =>
    rw [hcons, ih]
    cases selected with
    | none => rfl
    | some text =>
      by_cases hv : v.discriminator = text
      · simp [hv]
      · have hne : ¬text = v.discriminator := fun e => hv e.symm
        simp [hv, hne]

/-- A parameter of variants stands for what is active in the selected one. If the text of the
controller is the discriminator of no variant, or the controller has no value, nothing is active for
it. -/
theorem activeFor_of_controller? {p : Param} {controller : String}
    (h : p.kind.controller? = some controller) (m : Params) :
    activeFor m p =
      ((p.activeVariant? (m.textOf controller)).map fun v => active m v.params).getD [] := by
  obtain ⟨info, kind⟩ := p
  cases kind with
  | variant c variants =>
    obtain rfl := Option.some.inj h
    exact eq_of_stops_at_selected (g := fun v => active m v.params)
      (fun ⟨_, _⟩ _ => by rw [activeOfSelected]) variants
  | _ => exact absurd h (by simp [ParamKind.controller?])

/-- A parameter at the top that holds a value is active. -/
lemma mem_active_of_mem {params : List Param} {p : Param} (hp : p ∈ params)
    (hvalue : p.kind.isVariant = false) (m : Params) : p ∈ active m params := by
  rw [active_eq_flatMap, List.mem_flatMap]
  exact ⟨p, hp, by rw [activeFor_of_isVariant hvalue]; exact List.mem_singleton_self p⟩

/-- What is active in the selected variant of a parameter is active. -/
lemma mem_active_of_selected {params : List Param} {p q : Param} {controller : String}
    {v : Variant} {m : Params} (hp : p ∈ params) (hc : p.kind.controller? = some controller)
    (hv : p.activeVariant? (m.textOf controller) = some v) (hq : q ∈ active m v.params) :
    q ∈ active m params := by
  rw [active_eq_flatMap, List.mem_flatMap]
  refine ⟨p, hp, ?_⟩
  rw [activeFor_of_controller? hc, hv]
  exact hq

/-- A variant that is selected is one of the variants, and it has the text that selects as its
discriminator. -/
lemma mem_variants_of_activeVariant? {p : Param} {text : Option String} {v : Variant}
    (h : p.activeVariant? text = some v) :
    v ∈ p.kind.variants ∧ text = some v.discriminator := by
  obtain ⟨s, hs, hfound⟩ := Option.bind_eq_some_iff.1 h
  have hdiscriminator : v.discriminator = s := by simpa using List.find?_some hfound
  exact ⟨List.mem_of_find?_eq_some hfound, by rw [hs, hdiscriminator]⟩

/-! ## Names that are declared once -/

/-- The declarations of a tree are those at the top and those in the variants of each. -/
lemma declared_perm (params : List Param) :
    (declared params).Perm (params ++ params.flatMap fun p => declaredInKind p.kind) := by
  induction params with
  | nil => exact .refl _
  | cons p rest ih =>
    obtain ⟨info, kind⟩ := p
    rw [declared, List.flatMap_cons, List.cons_append]
    refine .cons _ ((ih.append_left _).trans ?_)
    exact List.perm_append_comm_assoc _ _ _

/-- What a list of variants declares is what each of them declares, one after the other. -/
lemma declaredInVariants_eq_flatMap (variants : List Variant) :
    declaredInVariants variants = variants.flatMap fun v => declared v.params := by
  induction variants with
  | nil => rfl
  | cons v rest ih =>
    obtain ⟨discriminator, params⟩ := v
    rw [declaredInVariants, ih, List.flatMap_cons]

/-- What is declared in the variants of a kind is what each variant declares, one after the other.
-/
lemma declaredInKind_eq_flatMap (kind : ParamKind) :
    declaredInKind kind = kind.variants.flatMap fun v => declared v.params := by
  cases kind with
  | variant controller variants => exact declaredInVariants_eq_flatMap variants
  | _ => rfl

/-- A declaration in a variant is one in the variants of the parameter, and one of the tree. -/
lemma mem_declared_of_mem_variants {params : List Param} {p q : Param} {v : Variant}
    (hp : p ∈ params) (hv : v ∈ p.kind.variants) (hq : q ∈ declared v.params) :
    q ∈ declaredInKind p.kind ∧ q ∈ declared params := by
  have hkind : q ∈ declaredInKind p.kind := by
    rw [declaredInKind_eq_flatMap]
    exact List.mem_flatMap.2 ⟨v, hv, hq⟩
  refine ⟨hkind, (declared_perm params).mem_iff.2 ?_⟩
  exact List.mem_append_right _ (List.mem_flatMap.2 ⟨p, hp, hkind⟩)

/-- Lists that have no entry in common, taken together, come from different places. -/
lemma eq_of_nodup_flatMap {α β : Type} {f : α → List β} {xs : List α} (h : (xs.flatMap f).Nodup)
    {x y : α} {b : β} (hx : x ∈ xs) (hy : y ∈ xs) (hbx : b ∈ f x) (hby : b ∈ f y) : x = y := by
  induction xs with
  | nil => exact absurd hx List.not_mem_nil
  | cons z rest ih =>
    rw [List.flatMap_cons, List.nodup_append] at h
    obtain ⟨-, hrest, hdisjoint⟩ := h
    rcases List.mem_cons.1 hx with rfl | hx' <;> rcases List.mem_cons.1 hy with rfl | hy'
    · rfl
    · exact absurd rfl (hdisjoint b hbx b (List.mem_flatMap.2 ⟨y, hy', hby⟩))
    · exact absurd rfl (hdisjoint b hby b (List.mem_flatMap.2 ⟨x, hx', hbx⟩))
    · exact ih hrest hx' hy'

section DeclaredOnce

variable {params : List Param} (hnames : ((declared params).map fun p => p.name).Nodup)

include hnames

/-- Where no name is declared twice, no parameter is at the top twice. -/
lemma nodup_of_nodup_names : params.Nodup := by
  rw [((declared_perm params).map _).nodup_iff, List.map_append, List.nodup_append] at hnames
  exact hnames.1.of_map

/-- Where no name is declared twice, none at the top is declared in a variant. -/
lemma name_ne_of_mem_declaredInKind {p q s : Param} (hs : s ∈ params) (hp : p ∈ params)
    (hq : q ∈ declaredInKind p.kind) : s.name ≠ q.name := by
  rw [((declared_perm params).map _).nodup_iff, List.map_append, List.nodup_append] at hnames
  exact hnames.2.2 _ (List.mem_map_of_mem hs) _
    (List.mem_map_of_mem (List.mem_flatMap.2 ⟨p, hp, hq⟩))

/-- Where no name is declared twice, the names in the variants of one parameter are not in those of
another. -/
lemma eq_of_mem_declaredInKind {p p' q q' : Param} (hp : p ∈ params) (hp' : p' ∈ params)
    (hq : q ∈ declaredInKind p.kind) (hq' : q' ∈ declaredInKind p'.kind)
    (hname : q.name = q'.name) : p = p' := by
  rw [((declared_perm params).map _).nodup_iff, List.map_append, List.nodup_append,
    List.map_flatMap] at hnames
  exact eq_of_nodup_flatMap hnames.2.1 hp hp' (List.mem_map_of_mem hq)
    (hname ▸ List.mem_map_of_mem hq')

/-- Where no name is declared twice, none is within the variants of a parameter. -/
lemma nodup_declaredInKind {p : Param} (hp : p ∈ params) :
    ((declaredInKind p.kind).map fun q => q.name).Nodup := by
  rw [((declared_perm params).map _).nodup_iff, List.map_append, List.nodup_append,
    List.map_flatMap, List.nodup_flatMap] at hnames
  exact hnames.2.1.1 p hp

/-- Where no name is declared twice, the names in one variant of a parameter are not in another. -/
lemma eq_of_mem_variants {p q q' : Param} {v v' : Variant} (hp : p ∈ params)
    (hv : v ∈ p.kind.variants) (hv' : v' ∈ p.kind.variants) (hq : q ∈ declared v.params)
    (hq' : q' ∈ declared v'.params) (hname : q.name = q'.name) : v = v' := by
  have hkind := nodup_declaredInKind hnames hp
  rw [declaredInKind_eq_flatMap, List.map_flatMap] at hkind
  exact eq_of_nodup_flatMap hkind hv hv' (List.mem_map_of_mem hq) (hname ▸ List.mem_map_of_mem hq')

/-- **Where no name is declared twice, a name that a variant declares is active only while the
variant is selected.**

**Proof sketch.** The active parameter of the name is the declaration itself. It stands for some
parameter at the top, which can be no other than the one whose variants declare it; so it is active
in the variant that is selected, which can be no other than the one that declares it. -/
theorem activeVariant?_of_mem_active {m : Params} {p q r : Param} {v : Variant}
    {controller : String} (hp : p ∈ params) (hc : p.kind.controller? = some controller)
    (hv : v ∈ p.kind.variants) (hq : q ∈ declared v.params) (hr : r ∈ active m params)
    (hname : r.name = q.name) : p.activeVariant? (m.textOf controller) = some v := by
  obtain ⟨hkind, hdeclared⟩ := mem_declared_of_mem_variants hp hv hq
  obtain rfl : r = q :=
    List.inj_on_of_nodup_map hnames (mem_declared_of_mem_active m r params hr) hdeclared hname
  rw [active_eq_flatMap, List.mem_flatMap] at hr
  obtain ⟨s, hs, hrs⟩ := hr
  rcases mem_declared_of_mem_activeOfKind m r s.toParamInfo s.kind hrs with heq | hrs'
  · obtain rfl : r = s := heq.trans (by cases s; rfl)
    exact absurd rfl (name_ne_of_mem_declaredInKind hnames hs hp hkind)
  · obtain rfl := eq_of_mem_declaredInKind hnames hs hp hrs' hkind rfl
    rw [activeFor_of_controller? hc] at hrs
    cases hselected : s.activeVariant? (m.textOf controller) with
    | none =>
      rw [hselected] at hrs
      exact absurd hrs List.not_mem_nil
    | some v' =>
      rw [hselected] at hrs
      have hin : r ∈ declared v'.params := mem_declared_of_mem_active m r v'.params hrs
      rw [eq_of_mem_variants hnames hp (mem_variants_of_activeVariant? hselected).1 hv hin hq rfl]

end DeclaredOnce

end Param

end RuleEditor.Catalog
