import Mathlib.Data.Set.List
import RuleEditor.Form.EditText
import RuleEditor.Proofs.Text.Trim

/-!
# Lists on one line

A list of texts is edited as one line. The items that are read from a line are trimmed, not empty
and without commas, and a list of such texts is read back from its line.

## Main definitions

* `CommaList.IsItem`, `CommaList.IsItemValue` — the texts that a line can hold as items, and the
  values that are such texts.

## Main results

* `CommaList.isItem_of_mem_items` — what a line holds are items.
* `CommaList.items_join` — a list of items is read back from its line.
* `CommaList.split_join_eq_self_iff` — the lists that come back from their lines.
-/

set_option relaxedAutoImplicit false
set_option autoImplicit false

namespace RuleEditor.CommaList

/-- A text that can be an item of a line: it is trimmed, not empty and has no comma. White space
within the text is fine, of whatever kind. -/
def IsItem (s : String) : Prop := Text.trim s = s ∧ s ≠ "" ∧ ',' ∉ s.toList

/-! ## Cutting -/

/-- The parts of a text between commas have no comma. -/
lemma comma_notMem_of_mem_cut {cs part : List Char} (hpart : part ∈ cut cs) : ',' ∉ part := by
  induction cs generalizing part with
  | nil =>
    rw [List.mem_singleton.1 hpart]
    exact List.not_mem_nil
  | cons c rest ih =>
    unfold cut at hpart
    by_cases hc : c = ','
    · rw [if_pos hc] at hpart
      rcases List.mem_cons.1 hpart with rfl | hpart
      · exact List.not_mem_nil
      · exact ih hpart
    · rw [if_neg hc] at hpart
      have hne : ',' ≠ c := fun e => hc e.symm
      split at hpart
      · next first parts hcut =>
        rcases List.mem_cons.1 hpart with rfl | hpart
        · have hfirst : ',' ∉ first := ih (by rw [hcut]; exact List.mem_cons_self)
          simp [hne, hfirst]
        · exact ih (by rw [hcut]; exact List.mem_cons_of_mem _ hpart)
      · rw [List.mem_singleton.1 hpart]
        simp [hne]

/-- A text without comma is one part. -/
lemma cut_eq_singleton {cs : List Char} (h : ',' ∉ cs) : cut cs = [cs] := by
  induction cs with
  | nil => rfl
  | cons c rest ih =>
    have hc : ¬c = ',' := fun e => h (e ▸ List.mem_cons_self)
    have hrest : ',' ∉ rest := fun hmem => h (List.mem_cons_of_mem _ hmem)
    simp only [cut, hc, ↓reduceIte, ih hrest]

/-- The first part of a text ends at the first comma. -/
lemma cut_append_comma {part rest : List Char} (h : ',' ∉ part) :
    cut (part ++ ',' :: rest) = part :: cut rest := by
  induction part with
  | nil => simp only [List.nil_append, cut, ↓reduceIte]
  | cons c part ih =>
    have hc : ¬c = ',' := fun e => h (e ▸ List.mem_cons_self)
    have hpart : ',' ∉ part := fun hmem => h (List.mem_cons_of_mem _ hmem)
    simp only [List.cons_append, cut, hc, ↓reduceIte, ih hpart]

/-! ## Items -/

/-- What a line holds are items: trimmed, not empty and without commas. -/
theorem isItem_of_mem_items {line s : String} (hs : s ∈ items line) : IsItem s := by
  obtain ⟨cs, hcs, rfl⟩ := List.mem_map.1 hs
  obtain ⟨htrimmed, hne⟩ := List.mem_filter.1 hcs
  obtain ⟨part, hpart, rfl⟩ := List.mem_map.1 htrimmed
  refine ⟨?_, ?_, ?_⟩
  · rw [Text.trim, String.toList_ofList, Text.trimChars_trimChars]
  · simpa [← String.toList_eq_nil_iff] using hne
  · rw [String.toList_ofList]
    exact fun hmem => comma_notMem_of_mem_cut hpart (Text.mem_of_mem_trimChars hmem)

/-- Items with a comma and a space between them, behind a number of spaces, are cut and trimmed to
what they were. -/
lemma map_trimChars_cut {parts : List (List Char)} (hne : parts ≠ [])
    (hparts : ∀ part ∈ parts, Text.trimChars part = part ∧ ',' ∉ part) (k : Nat) :
    (cut (List.replicate k ' ' ++ [',', ' '].intercalate parts)).map Text.trimChars = parts := by
  induction parts generalizing k with
  | nil => exact absurd rfl hne
  | cons part rest ih =>
    obtain ⟨htrim, hcomma⟩ := hparts part List.mem_cons_self
    have hspaces : ',' ∉ List.replicate k ' ' ++ part := by
      rw [List.mem_append, List.mem_replicate]
      rintro (⟨-, hchar⟩ | hmem)
      · exact absurd hchar (by decide)
      · exact hcomma hmem
    have hpart : Text.trimChars (List.replicate k ' ' ++ part) = part := by
      rw [Text.trimChars_append_of_isSpace, htrim]
      intro c hc
      rw [List.eq_of_mem_replicate hc]
      decide
    cases rest with
    | nil =>
      rw [List.intercalate_singleton, cut_eq_singleton hspaces, List.map_singleton, hpart]
    | cons next rest =>
      have htail := ih (List.cons_ne_nil _ _)
        (fun p hp => hparts p (List.mem_cons_of_mem _ hp)) 1
      have hcut : cut (List.replicate k ' ' ++ [',', ' '].intercalate (part :: next :: rest)) =
          (List.replicate k ' ' ++ part) ::
            cut (List.replicate 1 ' ' ++ [',', ' '].intercalate (next :: rest)) := by
        rw [← cut_append_comma hspaces, List.intercalate_cons_cons]
        simp
      rw [hcut, List.map_cons, htail, hpart]

/-- **A list of items is read back from its line.** The items are written with a comma and a space
between them; the line is cut at the commas, and trimming takes the spaces away. The list without
items is the empty line. -/
theorem items_join {texts : List String} (h : ∀ s ∈ texts, IsItem s) :
    items (join (texts.map .str)) = texts := by
  have htext : (texts.map Json.str).map Json.editText = texts := by
    rw [List.map_map]
    exact List.map_id texts
  have hline : (join (texts.map .str)).toList =
      [',', ' '].intercalate (texts.map String.toList) := by
    rw [join, htext, String.toList_intercalate]
    rfl
  rcases texts.eq_nil_or_concat with rfl | hne
  · rfl
  have hparts : ((cut (join (texts.map .str)).toList).map Text.trimChars) =
      texts.map String.toList := by
    rw [hline]
    refine map_trimChars_cut ?_ ?_ 0
    · rintro hnil
      obtain ⟨_, _, rfl⟩ := hne
      simp at hnil
    · intro part hpart
      obtain ⟨s, hs, rfl⟩ := List.mem_map.1 hpart
      obtain ⟨htrim, -, hcomma⟩ := h s hs
      exact ⟨by rw [← Text.toList_trim, htrim], hcomma⟩
  have hfilter : (texts.map String.toList).filter (fun part => part ≠ []) =
      texts.map String.toList := by
    rw [List.filter_eq_self]
    intro part hpart
    obtain ⟨s, hs, rfl⟩ := List.mem_map.1 hpart
    simpa using (h s hs).2.1
  rw [items, hparts, hfilter, List.map_map]
  simp [Function.comp_def]

/-- **A list of items comes back as values.** -/
theorem split_join {texts : List String} (h : ∀ s ∈ texts, IsItem s) :
    split (join (texts.map .str)) = texts.map .str := by
  rw [split, items_join h]

/-! ## Lists of values -/

/-- A value that can be an item of a line: a text that can be one. Numbers, truth values and all
else can be written on a line, but they are read back as texts. -/
def IsItemValue (v : Json) : Prop := ∃ s, v = .str s ∧ IsItem s

/-- What a line holds as values are items. -/
lemma isItemValue_of_mem_split {line : String} {v : Json} (hv : v ∈ split line) :
    IsItemValue v := by
  obtain ⟨s, hs, rfl⟩ := List.mem_map.1 hv
  exact ⟨s, rfl, isItem_of_mem_items hs⟩

/-- A list of items consists of texts. -/
lemma exists_map_str_eq {values : List Json} (h : ∀ v ∈ values, IsItemValue v) :
    ∃ texts : List String, texts.map .str = values ∧ ∀ s ∈ texts, IsItem s := by
  have hrange : values ∈ Set.range (List.map Json.str) := by
    rw [Set.range_list_map]
    intro v hv
    obtain ⟨s, rfl, -⟩ := h v hv
    exact Set.mem_range_self s
  obtain ⟨texts, rfl⟩ := hrange
  refine ⟨texts, rfl, fun s hs => ?_⟩
  obtain ⟨t, hst, ht⟩ := h (.str s) (List.mem_map_of_mem hs)
  rwa [Json.str.inj hst]

/-- **A list of values comes back from its line exactly if all of them are items**, that is texts
which are trimmed, not empty and without commas; and every line holds such values alone. So these
are the lists that an edit in one line leaves as they are, and every other list is changed by it.

**Proof sketch.** Whatever line is read, it gives items (`isItem_of_mem_items`), so that a list
which comes back consists of them; and a list of items comes back (`split_join`). -/
theorem split_join_eq_self_iff (values : List Json) :
    (split (join values) = values ↔ ∀ v ∈ values, IsItemValue v) ∧
      ∀ line, ∀ v ∈ split line, IsItemValue v := by
  refine ⟨⟨fun hback v hv => ?_, fun hitems => ?_⟩, fun line v hv => isItemValue_of_mem_split hv⟩
  · rw [← hback] at hv
    exact isItemValue_of_mem_split hv
  · obtain ⟨texts, rfl, htexts⟩ := exists_map_str_eq hitems
    exact split_join htexts

end RuleEditor.CommaList
