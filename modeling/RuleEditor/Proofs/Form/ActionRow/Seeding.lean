import RuleEditor.Form.ActionRow.Seeding
import RuleEditor.Proofs.OrderedMap

/-!
# What seeding adds

The declarations of an action are a tree, of which looking up a name, seeding and activity each see
a part. Looking up a name finds the first declaration of the name in the tree; what is active is
declared somewhere in the tree; and seeding leaves the values that are there alone and adds nothing
but defaults of declarations.

## Main definitions

* `Catalog.Param.declared` — all declarations of a tree, depth first.
* `Params.Seeds` — the second of two maps holds what the first holds and perhaps defaults.

## Main results

* `Catalog.Param.findInList?_eq_find?` — looking up a name finds its first declaration.
* `Catalog.Param.mem_declared_of_mem_active` — active parameters are declared.
* `Catalog.Param.isVariant_of_mem_active` — active parameters hold values.
* `Params.seeds_seedDefaults`, `Params.seeds_seedVariants` — seeding adds defaults and nothing else.
-/

set_option relaxedAutoImplicit false
set_option autoImplicit false

namespace RuleEditor

namespace Catalog.Param

/-! ## Declarations -/

mutual

/-- All declarations of a list of parameters and, behind each, those of its variants. The list does
not depend on values: it holds the parameters of all variants, selected or not, and the parameters
of variants as well as those that hold values. -/
def declared : List Param → List Param
  | [] => []
  | ⟨info, kind⟩ :: rest => ⟨info, kind⟩ :: (declaredInKind kind ++ declared rest)

/-- All declarations in the variants of a kind, whichever of the variants are active. -/
def declaredInKind : ParamKind → List Param
  | .variant _ variants => declaredInVariants variants
  | _ => []

/-- All declarations in a list of variants. -/
def declaredInVariants : List Variant → List Param
  | [] => []
  | ⟨_, params⟩ :: rest => declared params ++ declaredInVariants rest

end

mutual

/-- Looking up a name finds its first declaration in the tree, whether it is active or not: at the
top before its variants, and these before what follows at the top. -/
theorem findInList?_eq_find? (name : String) :
    ∀ params : List Param, findInList? name params = (declared params).find? (·.name = name)
  | [] => by simp only [findInList?, declared, List.find?_nil]
  | ⟨info, kind⟩ :: rest => by
    rw [findInList?, find?, declared, List.find?_cons]
    by_cases hname : info.name = name
    · simp only [hname, ↓reduceIte, Option.some_or, decide_true]
    · simp only [hname, ↓reduceIte, decide_false, List.find?_append,
        findInKind?_eq_find? name kind, findInList?_eq_find? name rest]

/-- Looking up a name in the variants of a kind finds its first declaration there. -/
lemma findInKind?_eq_find? (name : String) :
    ∀ kind : ParamKind, findInKind? name kind = (declaredInKind kind).find? (·.name = name)
  | .variant _ variants => by
    rw [findInKind?, declaredInKind, findInVariants?_eq_find? name variants]
  | .string | .number | .integer | .boolean | .object | .stringArray => by
    simp only [findInKind?, declaredInKind, List.find?_nil]

/-- Looking up a name in variants finds its first declaration there. -/
lemma findInVariants?_eq_find? (name : String) :
    ∀ variants : List Variant,
      findInVariants? name variants = (declaredInVariants variants).find? (·.name = name)
  | [] => by simp only [findInVariants?, declaredInVariants, List.find?_nil]
  | ⟨_, params⟩ :: rest => by
    rw [findInVariants?, declaredInVariants, List.find?_append, findInList?_eq_find? name params,
      findInVariants?_eq_find? name rest]

end

mutual

/-- Active parameters are declared: what is active is picked from the tree of declarations and never
made up, whatever the values are. -/
theorem mem_declared_of_mem_active (m : Params) (p : Param) :
    ∀ params : List Param, p ∈ active m params → p ∈ declared params
  | [], hp => by simp [active] at hp
  | ⟨info, kind⟩ :: rest, hp => by
    rw [active] at hp
    rw [declared]
    rcases List.mem_append.1 hp with hp | hp
    · rcases mem_declared_of_mem_activeOfKind m p info kind hp with rfl | hp
      · exact List.mem_cons_self
      · exact List.mem_cons_of_mem _ (List.mem_append_left _ hp)
    · exact List.mem_cons_of_mem _
        (List.mem_append_right _ (mem_declared_of_mem_active m p rest hp))

/-- The active parameters that stand for one parameter are that one or declared in its variants. -/
lemma mem_declared_of_mem_activeOfKind (m : Params) (p : Param) (info : ParamInfo) :
    ∀ kind : ParamKind, p ∈ activeOfKind m info kind →
      p = ⟨info, kind⟩ ∨ p ∈ declaredInKind kind
  | .variant controller variants, hp => by
    rw [activeOfKind] at hp
    exact .inr (mem_declared_of_mem_activeOfSelected m p _ variants hp)
  | .string, hp | .number, hp | .integer, hp | .boolean, hp | .object, hp | .stringArray, hp => by
    exact .inl (by simpa [activeOfKind] using hp)

/-- The active parameters of the selected variant are declared in it. -/
lemma mem_declared_of_mem_activeOfSelected (m : Params) (p : Param) (selected : Option String) :
    ∀ variants : List Variant, p ∈ activeOfSelected m selected variants →
      p ∈ declaredInVariants variants
  | [], hp => by simp [activeOfSelected] at hp
  | ⟨discriminator, params⟩ :: rest, hp => by
    rw [activeOfSelected] at hp
    rw [declaredInVariants]
    split at hp
    · exact List.mem_append_left _ (mem_declared_of_mem_active m p params hp)
    · exact List.mem_append_right _ (mem_declared_of_mem_activeOfSelected m p selected rest hp)

end

mutual

/-- Active parameters hold values: the kind of variants is not among theirs. -/
theorem isVariant_of_mem_active (m : Params) (p : Param) :
    ∀ params : List Param, p ∈ active m params → p.kind.isVariant = false
  | [], hp => by simp [active] at hp
  | ⟨info, kind⟩ :: rest, hp => by
    rw [active] at hp
    rcases List.mem_append.1 hp with hp | hp
    · exact isVariant_of_mem_activeOfKind m p info kind hp
    · exact isVariant_of_mem_active m p rest hp

/-- The active parameters that stand for one parameter hold values. -/
lemma isVariant_of_mem_activeOfKind (m : Params) (p : Param) (info : ParamInfo) :
    ∀ kind : ParamKind, p ∈ activeOfKind m info kind → p.kind.isVariant = false
  | .variant controller variants, hp => by
    rw [activeOfKind] at hp
    exact isVariant_of_mem_activeOfSelected m p _ variants hp
  | .string, hp | .number, hp | .integer, hp | .boolean, hp | .object, hp | .stringArray, hp => by
    rw [activeOfKind, List.mem_singleton] at hp
    · rw [hp]
      rfl
    · intro controller variants
      exact ParamKind.noConfusion

/-- The active parameters of the selected variant hold values. -/
lemma isVariant_of_mem_activeOfSelected (m : Params) (p : Param) (selected : Option String) :
    ∀ variants : List Variant, p ∈ activeOfSelected m selected variants → p.kind.isVariant = false
  | [], hp => by simp [activeOfSelected] at hp
  | ⟨discriminator, params⟩ :: rest, hp => by
    rw [activeOfSelected] at hp
    split at hp
    · exact isVariant_of_mem_active m p params hp
    · exact isVariant_of_mem_activeOfSelected m p selected rest hp

end

end Catalog.Param

namespace Params

open Catalog

/-! ## Seeding -/

/-- The second map holds the values of the first and, of names that the first does not have, perhaps
the default of one of the given declarations. This is all that later proofs use of seeding: which
defaults are added is another matter (`Params.Fills`). -/
def Seeds (declarations : List Param) (m m' : Params) : Prop :=
  ∀ name, OrderedMap.get? m' name = OrderedMap.get? m name ∨
    OrderedMap.get? m name = none ∧
      ∃ p ∈ declarations, p.name = name ∧ OrderedMap.get? m' name = p.defaultValue?

variable {declarations : List Param} {m m' m'' : Params}

/-- Nothing need be added. -/
lemma Seeds.refl (declarations : List Param) (m : Params) : Seeds declarations m m :=
  fun _ => .inl rfl

/-- Seeding twice is seeding. -/
lemma Seeds.trans (h : Seeds declarations m m') (h' : Seeds declarations m' m'') :
    Seeds declarations m m'' := by
  intro name
  rcases h name with hsame | ⟨hnone, p, hp, hname, hdefault⟩
  · rcases h' name with hsame' | ⟨hnone', added⟩
    · exact .inl (hsame'.trans hsame)
    · exact .inr ⟨hsame ▸ hnone', added⟩
  · rcases h' name with hsame' | ⟨-, added⟩
    · exact .inr ⟨hnone, p, hp, hname, hsame'.trans hdefault⟩
    · exact .inr ⟨hnone, added⟩

/-- The defaults may come from more declarations. -/
lemma Seeds.mono {more : List Param} (h : Seeds declarations m m')
    (hmore : ∀ p ∈ declarations, p ∈ more) : Seeds more m m' := by
  intro name
  rcases h name with hsame | ⟨hnone, p, hp, added⟩
  · exact .inl hsame
  · exact .inr ⟨hnone, p, hmore p hp, added⟩

/-- A value that is there stays. -/
lemma Seeds.get?_of_eq_some (h : Seeds declarations m m') {name : String} {value : EditValue}
    (hvalue : OrderedMap.get? m name = some value) : OrderedMap.get? m' name = some value := by
  rcases h name with hsame | ⟨hnone, -⟩
  · exact hsame.trans hvalue
  · rw [hvalue] at hnone
    exact absurd hnone (Option.some_ne_none value)

/-- Adding a default is seeding. -/
lemma seeds_seedDefault {p : Param} (hp : p ∈ declarations) (m : Params) :
    Seeds declarations m (seedDefault m p) := by
  unfold seedDefault
  split_ifs with hcontains
  · exact .refl _ _
  · split
    · next value hvalue =>
      intro name
      rw [OrderedMap.get?_insert]
      by_cases hname : p.name = name
      · subst hname
        refine .inr ⟨by simpa [OrderedMap.contains] using hcontains, p, hp, rfl, ?_⟩
        rw [if_pos rfl, hvalue]
      · exact .inl (if_neg hname)
    · exact .refl _ _

/-- Adding defaults one after the other is seeding: a value that is there stays, and a name that
comes in has the default of a declaration of that name. -/
theorem seeds_seedDefaults (params : List Param) (m : Params) :
    Seeds params m (seedDefaults params m) := by
  suffices h : ∀ more : List Param, (∀ p ∈ params, p ∈ more) →
      Seeds more m (seedDefaults params m) from h params fun _ hp => hp
  intro more hmore
  induction params generalizing m with
  | nil => exact .refl _ _
  | cons p rest ih =>
    exact (seeds_seedDefault (hmore p List.mem_cons_self) m).trans
      (ih (seedDefault m p) fun q hq => hmore q (List.mem_cons_of_mem _ hq))

/-- The declarations at the top of a tree belong to it. -/
lemma mem_declared_of_mem {p : Param} :
    ∀ {params : List Param}, p ∈ params → p ∈ Param.declared params
  | [], hp => absurd hp List.not_mem_nil
  | ⟨info, kind⟩ :: rest, hp => by
    rw [Param.declared]
    rcases List.mem_cons.1 hp with rfl | hp
    · exact List.mem_cons_self
    · exact List.mem_cons_of_mem _ (List.mem_append_right _ (mem_declared_of_mem hp))

mutual

/-- Filling up the selected variants of parameters is seeding. -/
theorem seeds_seedVariants : ∀ (params : List Param) (m : Params),
    Seeds (Param.declared params) m (seedVariants params m)
  | [], m => .refl _ m
  | ⟨info, kind⟩ :: rest, m => by
    rw [seedVariants, Param.declared]
    have hkind : Seeds (⟨info, kind⟩ :: (Param.declaredInKind kind ++ Param.declared rest)) m
        (seedKind kind m) :=
      (seeds_seedKind kind m).mono fun p hp =>
        List.mem_cons_of_mem _ (List.mem_append_left _ hp)
    exact hkind.trans ((seeds_seedVariants rest (seedKind kind m)).mono fun p hp =>
      List.mem_cons_of_mem _ (List.mem_append_right _ hp))

/-- Filling up the selected variant of a kind is seeding. -/
lemma seeds_seedKind : ∀ (kind : ParamKind) (m : Params),
    Seeds (Param.declaredInKind kind) m (seedKind kind m)
  | .variant controller variants, m => by
    rw [seedKind, Param.declaredInKind]
    exact seeds_seedSelected (m.textOf controller) variants m
  | .string, m | .number, m | .integer, m | .boolean, m | .object, m | .stringArray, m => by
    exact .refl _ m

/-- Filling up one of a list of variants is seeding. -/
lemma seeds_seedSelected (selected : Option String) : ∀ (variants : List Variant) (m : Params),
    Seeds (Param.declaredInVariants variants) m (seedSelected selected variants m)
  | [], m => .refl _ m
  | ⟨discriminator, params⟩ :: rest, m => by
    rw [seedSelected, Param.declaredInVariants]
    split
    · have hdefaults := (seeds_seedDefaults params m).mono fun _ hp => mem_declared_of_mem hp
      exact (hdefaults.trans (seeds_seedVariants params (seedDefaults params m))).mono
        fun p hp => List.mem_append_left _ hp
    · exact (seeds_seedSelected selected rest m).mono fun p hp => List.mem_append_right _ hp

end

end Params

end RuleEditor
