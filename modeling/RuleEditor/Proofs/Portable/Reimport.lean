import RuleEditor.Proofs.Expression.Flatten
import RuleEditor.Proofs.Portable.Import
import RuleEditor.Proofs.Portable.RoundTrip

/-!
# Importing again

A rule that was imported is portable, so that its own document can be imported in turn. What comes
back is the identical rule in all cases but one. A condition may give its right side under four
names, and a blank path is passed over under `comparePath`, but not within the operand under
`right`. The document writes every path under `comparePath`, and there a blank one is lost.

## Main definitions

* `Portable.GivesBlankPath` — the members of a condition whose right side is a blank path.

## Main results

* `Portable.isPortable_of_importJson` — imported rules are portable.
* `Portable.carried_eq_self_iff_of_importCondition` — which imported comparisons a document keeps.
* `Portable.importJson_again_iff` — an imported rule comes back from its own document exactly if no
  condition gave a blank path.
-/

set_option relaxedAutoImplicit false
set_option autoImplicit false

namespace RuleEditor.Portable

/-! ## Right sides -/

/-- Members of a condition that give a blank path as its right side. Only the operand under `right`
can be one, where no path under `comparePath` goes before it. -/
def GivesBlankPath (o : Json.Object) : Prop :=
  nonBlankMember? o "comparePath" = none ∧
    ∃ p ∈ ((OrderedMap.get? o "right").bind fun v => v.member? "path").bind Json.str?,
      Text.isBlank p = true

/-- Whether a blank path is given is settled by looking at two members. -/
instance : DecidablePred GivesBlankPath := fun _ => inferInstanceAs (Decidable (_ ∧ _))

/-- A text under `path` makes an operand a path. -/
lemma operand_ofJson_of_path {v : Json} {p : String}
    (h : (v.member? "path").bind Json.str? = some p) : Operand.ofJson v = .path p := by
  obtain ⟨w, hw, hstr⟩ := Option.bind_eq_some_iff.1 h
  cases w with
  | str s =>
    obtain rfl : s = p := Option.some.inj hstr
    simp only [Operand.ofJson, hw]
  | _ => exact absurd hstr (by simp [Json.str?])

/-- Members that give a blank path have it as their right side: the operand under `right` is read
without a look at the path in it. -/
lemma rightSide?_of_givesBlankPath {o : Json.Object} (h : GivesBlankPath o) :
    ∃ p, rightSide? o = some (.path p) ∧ Text.isBlank p = true := by
  obtain ⟨hcompare, p, hp, hblank⟩ := h
  rw [Option.mem_def, Option.bind_assoc] at hp
  obtain ⟨v, hright, hpath⟩ := Option.bind_eq_some_iff.1 hp
  have hnull : v.isNull = false := by
    cases v with
    | null => exact absurd hpath (by simp [Json.member?, Json.obj?])
    | _ => rfl
  have hpresent : presentMember? o "right" = some v := by
    rw [presentMember?, hright]
    simp [hnull]
  refine ⟨p, ?_, hblank⟩
  rw [rightSide?, hcompare, hpresent, Option.map_some, operand_ofJson_of_path hpath]
  rfl

/-- Every other right side that is read is kept by a document.

**Proof sketch.** A path under `comparePath` is not blank, the operand under `right` is a path that
is not blank or a value other than `null`, and so is the literal under the last two names. -/
lemma carried?_of_rightSide? {o : Json.Object} {operand : Operand}
    (hread : rightSide? o = some operand) (h : ¬GivesBlankPath o) :
    operand.carried? = some operand := by
  rw [rightSide?] at hread
  cases hcompare : nonBlankMember? o "comparePath" with
  | some p =>
    obtain rfl : Operand.path p = operand := by simpa [hcompare] using hread
    simp [Operand.carried?, isBlank_of_nonBlankMember? hcompare]
  | none =>
    cases hpresent : presentMember? o "right" with
    | some v =>
      obtain rfl : Operand.ofJson v = operand := by simpa [hcompare, hpresent] using hread
      have hright : OrderedMap.get? o "right" = some v := (Option.filter_eq_some_iff.1 hpresent).1
      have hnull := isNull_of_presentMember? hpresent
      unfold Operand.ofJson
      split
      · next p hpath =>
        have hblank : Text.isBlank p = false := by
          by_contra hnot
          exact h ⟨hcompare, p, by simp [hright, hpath, Json.str?], by simpa using hnot⟩
        simp [Operand.carried?, hblank]
      · simp [Operand.carried?, hnull]
    | none =>
      have hliteral : ((presentMember? o "value").or (presentMember? o "values")).map
          Operand.literal = some operand := by
        simpa [hcompare, hpresent] using hread
      obtain ⟨v, hv, rfl⟩ := Option.map_eq_some_iff.1 hliteral
      have hnull : v.isNull = false := by
        rcases Option.or_eq_some_iff.1 hv with hvalue | ⟨-, hvalues⟩
        · exact isNull_of_presentMember? hvalue
        · exact isNull_of_presentMember? hvalues
      simp [Operand.carried?, hnull]

/-- A document keeps all of an imported comparison exactly if the right side that was given is no
blank path. Its path and operator are not blank, or it would not have been imported. -/
theorem carried_eq_self_iff_of_importCondition {o : Json.Object} {c : RuleEditor.Condition}
    (hright : rightSide? o = c.right) : c.carried = c ↔ ¬GivesBlankPath o := by
  obtain ⟨op, path, right⟩ := c
  obtain rfl : rightSide? o = right := hright
  simp only [Condition.carried, RuleEditor.Condition.mk.injEq, true_and]
  constructor
  · intro hkept hblank
    obtain ⟨p, hp, hpblank⟩ := rightSide?_of_givesBlankPath hblank
    rw [hp] at hkept
    simp [Operand.carried?, hpblank] at hkept
  · intro hnot
    cases hread : rightSide? o with
    | none => rfl
    | some operand => rw [Option.bind_some, carried?_of_rightSide? hread hnot]

/-! ## Documents -/

/-- A document keeps all comparisons of an imported list exactly if none of them was given with a
blank path on its right side. -/
lemma map_carried_eq_self_iff {items : List Json} {conditions : List RuleEditor.Condition}
    (hitems : List.Forall₂ ReadsCondition items conditions) :
    conditions.map Condition.carried = conditions ↔
      ∀ o, Json.obj o ∈ items → ¬GivesBlankPath o := by
  induction hitems with
  | nil => simp
  | @cons v c rest more hread _ ih =>
    obtain ⟨o, rfl, -, -, hright⟩ := hread
    rw [List.map_cons, List.cons.injEq, carried_eq_self_iff_of_importCondition hright]
    refine (and_congr_right' ih).trans ?_
    constructor
    · rintro ⟨hhead, htail⟩ o' hmem
      rcases List.mem_cons.1 hmem with heq | hmem
      · rw [Json.obj.inj heq]
        exact hhead
      · exact htail o' hmem
    · intro hall
      exact ⟨hall o List.mem_cons_self, fun o' hmem => hall o' (List.mem_cons_of_mem _ hmem)⟩

/-- An imported rule is portable: each of its comparisons has a path and an operator, each of its
actions a type, and there are some of both. So its own document is never refused. -/
theorem isPortable_of_importJson {v : Json} {r : Rule} (h : importJson v = .ok r) :
    r.IsPortable := by
  obtain ⟨o, conditions, actions, rfl, hconditions, hactions, rfl⟩ :=
    (importJson_eq_ok_iff v r).1 h
  obtain ⟨hne, hread⟩ := exists_of_importList importCondition_eq_ok_iff hconditions
  obtain ⟨hne', hread'⟩ := exists_of_importList importAction_eq_ok_iff hactions
  have hflat : (ruleOfMembers o conditions actions).expression.flatten.conditions = conditions := by
    simp [ruleOfMembers]
  refine ⟨?_, ?_, ?_, hne', ?_⟩
  · rw [hflat]
    exact hne
  · intro c hc
    obtain ⟨v, o', -, hpath, -, -⟩ := hread c (hflat ▸ hc)
    exact isBlank_of_nonBlankMember? hpath
  · intro c hc
    obtain ⟨v, o', -, -, hop, -⟩ := hread c (hflat ▸ hc)
    exact isBlank_of_nonBlankMember? hop
  · intro a ha
    obtain ⟨v, o', -, htype, -⟩ := hread' a ha
    exact isBlank_of_nonBlankMember? htype

/-- What a document keeps of an imported rule is all of it but for comparisons that it does not
keep. -/
lemma carried_ruleOfMembers (o : Json.Object) (conditions : List RuleEditor.Condition)
    (actions : List StoredAction) :
    (ruleOfMembers o conditions actions).carried =
      ruleOfMembers o (conditions.map Condition.carried) actions := by
  simp [Rule.carried, ruleOfMembers, Option.filter_filter]

/-- Rules of the same members are equal exactly if their comparisons are. -/
lemma ruleOfMembers_eq_iff (o : Json.Object) (cs ds : List RuleEditor.Condition)
    (actions : List StoredAction) :
    ruleOfMembers o cs actions = ruleOfMembers o ds actions ↔ cs = ds := by
  refine ⟨fun h => ?_, fun h => by rw [h]⟩
  have hflat := congrArg (fun r : Rule => r.expression.flatten.conditions) h
  simpa [ruleOfMembers] using hflat

/-- **An imported rule comes back from its own document exactly if no condition gave a blank path.**
The conditions of the first document may give their right sides under any of the four names, while
the second document uses two of them only.

**Proof sketch.** The second import gives what the document keeps of the rule
(`importJson_toDocument_eq_ok_iff`), since an imported rule is portable. Its expression is flat and
its description is not blank, so that only right sides can get lost, and these are blank paths alone
(`carried_eq_self_iff_of_importCondition`). -/
theorem importJson_again_iff {v : Json} {r : Rule} (h : importJson v = .ok r) :
    importJson r.toDocument.toJson = .ok r ↔
      ∀ items o, v.member? "conditions" = some (.arr items) → Json.obj o ∈ items →
        ¬GivesBlankPath o := by
  have hportable := isPortable_of_importJson h
  obtain ⟨o, conditions, actions, rfl, hconditions, -, rfl⟩ := (importJson_eq_ok_iff v r).1 h
  obtain ⟨items, hmember, -, hitems⟩ :=
    (importList_eq_ok_iff importCondition_eq_ok_iff _ o _ conditions).1 hconditions
  rw [importJson_toDocument_eq_ok_iff, carried_ruleOfMembers, ruleOfMembers_eq_iff, eq_comm,
    map_carried_eq_self_iff hitems]
  simp only [hportable, true_and]
  constructor
  · intro hall items' o' hmember' hmem
    obtain rfl : items = items' := by
      simpa [Json.member?, Json.obj?, hmember] using hmember'
    exact hall o' hmem
  · intro hall o' hmem
    exact hall items o' hmember hmem

/-- A document with the given conditions and one action. -/
def documentWith (conditions : List Json) : Json :=
  .obj [("name", .str "r"), ("description", .str " "), ("conditions", .arr conditions),
    ("actions", .arr [.obj [("type", .str "t"), ("params", .obj [("k", .null)])]])]

/-- A condition with the given members beside its path and operator. -/
def conditionWith (members : Json.Object) : Json :=
  .obj ([("path", .str "$.a"), ("operator", .str "==")] ++ members)

/-- Conditions that give their right sides under all four names, and one that gives none. -/
def mixedConditions : List Json :=
  [conditionWith [("comparePath", .str " $.b"), ("right", .obj [("path", .str "")])],
    conditionWith [("comparePath", .str " "), ("right", .obj [("path", .str "$.c")])],
    conditionWith [("right", .obj [("path", .null)]), ("value", .bool true)],
    conditionWith [("right", .null), ("value", .arr [.null]), ("values", .str "x")],
    conditionWith [("comparePath", .null), ("value", .null), ("values", .obj [("path", .str "")])],
    conditionWith []]

/-- Of these conditions the rule comes back from its own document. -/
theorem importJson_again_mixedConditions :
    ∃ r, importJson (documentWith mixedConditions) = .ok r ∧
      importJson r.toDocument.toJson = .ok r := by
  obtain ⟨r, hr⟩ : ∃ r, importJson (documentWith mixedConditions) = .ok r := ⟨_, rfl⟩
  refine ⟨r, hr, (importJson_again_iff hr).2 ?_⟩
  intro items o hitems hmem
  obtain rfl : mixedConditions = items := Json.arr.inj (Option.some.inj hitems)
  simp only [mixedConditions, conditionWith, List.mem_cons, List.not_mem_nil, Json.obj.injEq,
    or_false] at hmem
  rcases hmem with rfl | rfl | rfl | rfl | rfl | rfl <;> decide

/-- A condition with a blank path under `right` is imported with that path and, from its own
document, without a right side. -/
theorem importJson_again_blank_path :
    ∃ r r',
      importJson (documentWith [conditionWith [("right", .obj [("path", .str " ")])]]) = .ok r ∧
      importJson r.toDocument.toJson = .ok r' ∧ r' ≠ r := by
  refine ⟨_, _, rfl, rfl, fun h => ?_⟩
  have hright := congrArg (fun r : Rule => r.expression.conditions.map fun c => c.right.isSome) h
  exact absurd hright (by decide)

end RuleEditor.Portable
