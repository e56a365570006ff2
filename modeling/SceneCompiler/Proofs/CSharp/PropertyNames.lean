import Mathlib.Data.List.Nodup
import Mathlib.Data.List.Perm.Subperm
import SceneCompiler.CSharp.PropertyName
import SceneCompiler.Proofs.Number.Digits
import SceneCompiler.Proofs.Text.Order

/-!
# Identifiers for property names

Each of some names gets the first of the identifiers that belong to it which no name before has, so no
two names share one.  Identifiers are made of letters, digits and underscores, and begin as the name
does: one is legal exactly if the name does not begin with a digit.
-/

namespace SceneCompiler.CSharp

def IsIdentifier (text : List Char) : Prop :=
  ∃ first rest, text = first :: rest ∧ (first.isAlpha = true ∨ first = '_') ∧
    ∀ c ∈ rest, c.isAlphanum = true ∨ c = '_'

theorem isWordChar_iff {c : Char} : isWordChar c = true ↔ c.isAlphanum = true ∨ c = '_' := by
  rw [isWordChar, Bool.or_eq_true, beq_iff_eq]

theorem isDigit_of_isAlpha {c : Char} (h : c.isAlpha = true) : c.isDigit = false := by
  unfold Char.isAlpha Char.isUpper Char.isLower at h
  unfold Char.isDigit
  simp only [UInt32.le_iff_toNat_le, ge_iff_le, Bool.or_eq_true, Bool.and_eq_true,
    decide_eq_true_eq, Char.toNat_val] at h
  simp only [UInt32.le_iff_toNat_le, ge_iff_le, Bool.and_eq_false_iff, decide_eq_false_iff_not,
    Char.toNat_val]
  simp at h ⊢
  omega

theorem isIdentifier_iff {text : List Char} (h : ∀ c ∈ text, isWordChar c = true) :
    IsIdentifier text ↔ ∃ first ∈ text.head?, first.isDigit = false := by
  constructor
  · rintro ⟨first, rest, rfl, hfirst, _⟩
    refine ⟨first, rfl, ?_⟩
    rcases hfirst with halpha | rfl
    · exact isDigit_of_isAlpha halpha
    · rfl
  · rintro ⟨first, hhead, hdigit⟩
    obtain ⟨rest, rfl⟩ : ∃ rest, text = first :: rest := List.head?_eq_some_iff.mp hhead
    refine ⟨first, rest, rfl, ?_, fun c hc => isWordChar_iff.mp (h c (List.mem_cons_of_mem _ hc))⟩
    rcases isWordChar_iff.mp (h first List.mem_cons_self) with halnum | hunderscore
    · rw [Char.isAlphanum, hdigit, Bool.or_false] at halnum
      exact .inl halnum
    · exact .inr hunderscore

/-! ## The words for a name -/

theorem isWordChar_wordText (name : String) : ∀ c ∈ (wordText name).toList, isWordChar c = true := by
  intro d hd
  rw [wordText, String.toList_ofList] at hd
  obtain ⟨c, _, hd⟩ := List.mem_flatMap.mp hd
  split at hd
  · rename_i hword
    rwa [List.mem_singleton.mp hd]
  · obtain ⟨_, _, rfl⟩ := List.mem_map.mp hd
    rfl

theorem head?_wordText (name : String) :
    (wordText name).toList.head? = name.toList.head?.map fun c => if isWordChar c then c else '_' := by
  rw [wordText, String.toList_ofList]
  cases name.toList with
  | nil => rfl
  | cons c rest =>
    rw [List.flatMap_cons, List.head?_cons, Option.map_some, List.head?_append]
    split
    · rfl
    · obtain ⟨unit, units, hunits⟩ := List.exists_cons_of_ne_nil (Text.charUnits_ne_nil c)
      rw [hunits]
      rfl

theorem isWordChar_candidate {base : String} (h : ∀ c ∈ base.toList, isWordChar c = true) (k : Nat) :
    ∀ c ∈ (candidate base k).toList, isWordChar c = true := by
  intro c hc
  have hsuffix := List.all_eq_true.mp (by decide : "PropertyName".toList.all isWordChar = true)
  unfold candidate at hc
  split at hc
  · rw [String.toList_append, List.mem_append] at hc
    exact hc.elim (h c) (hsuffix c)
  · simp only [String.toList_append, List.mem_append] at hc
    rcases hc with ((hbase | hmark) | hdigit) | hend
    · exact h c hbase
    · rw [List.mem_singleton.mp hmark]
      rfl
    · exact isWordChar_iff.mpr (.inl ((areDigits_toDigits k).isAlphanum c (by simpa using hdigit)))
    · exact hsuffix c hend

theorem head?_candidate (base : String) (k : Nat) :
    (candidate base k).toList.head? = base.toList.head?.or (some (if k = 0 then 'P' else '_')) := by
  unfold candidate
  split
  · rw [String.toList_append, List.head?_append]
    rfl
  · rename_i hk
    rw [if_neg hk]
    simp only [String.toList_append, List.append_assoc, List.head?_append]
    rfl

theorem isIdentifier_candidate_iff (name : String) (k : Nat) :
    IsIdentifier (candidate (wordText name) k).toList ↔
      ∀ first ∈ name.toList.head?, first.isDigit = false := by
  rw [isIdentifier_iff (isWordChar_candidate (isWordChar_wordText name) k), head?_candidate,
    head?_wordText]
  cases name.toList.head? with
  | none =>
    rw [Option.map_none, Option.none_or]
    refine iff_of_true ⟨_, rfl, ?_⟩ fun _ hfirst => absurd hfirst (Option.not_mem_none _)
    split <;> rfl
  | some first =>
    simp only [Option.map_some, Option.some_or, Option.mem_some_iff, exists_eq_left', forall_eq']
    split
    · rfl
    · rename_i hword
      refine iff_of_true rfl ?_
      cases hdigit : first.isDigit with
      | false => rfl
      | true => exact absurd (isWordChar_iff.mpr (.inl (by simp [Char.isAlphanum, hdigit]))) hword

/-! ## The constants of names -/

theorem candidate_injective (base : String) : Function.Injective (candidate base) := by
  intro j k h
  unfold candidate at h
  split at h <;> split at h <;>
    simp only [String.append_assoc, String.append_right_inj, String.append_left_inj] at h
  · rfl
  · exact absurd (congrArg (·.toList.head?) h) (by simp)
  · exact absurd (congrArg (·.toList.head?) h) (by simp)
  · have hdigits : Nat.toDigits 10 j = Nat.toDigits 10 k := by
      simpa using congrArg String.toList h
    simpa using congrArg (Nat.ofDigitChars 10 · 0) hdigits

/-- Of the identifiers for a name, one more than there are used ones, the first that is not used. -/
theorem fresh_spec (used : List String) (base : String) :
    ∃ k ≤ used.length, fresh used base = candidate base k ∧ candidate base k ∉ used ∧
      ∀ j < k, candidate base j ∈ used := by
  obtain ⟨a, ha, hunused⟩ : ∃ a < used.length + 1, candidate base a ∉ used := by
    by_contra! hall
    have hsub : (List.range (used.length + 1)).map (candidate base) ⊆ used := by
      intro id hid
      obtain ⟨a, ha, rfl⟩ := List.mem_map.mp hid
      exact hall a (List.mem_range.mp ha)
    have hle := (List.subperm_of_subset
      (List.nodup_range.map (candidate_injective base)) hsub).length_le
    simp only [List.length_map, List.length_range] at hle
    omega
  unfold fresh
  dsimp only
  cases hfind : (List.range (used.length + 1)).find? fun k => !used.contains (candidate base k) with
  | none => simpa [hunused] using List.find?_eq_none.mp hfind a (List.mem_range.mpr ha)
  | some k =>
    obtain ⟨hk, hrange, hbefore⟩ := List.find?_range_eq_some.mp hfind
    refine ⟨k, Nat.lt_succ_iff.mp (List.mem_range.mp hrange), ?_, by simpa using hk, ?_⟩
    · rw [List.find?_map, Function.comp_def, hfind]
      rfl
    · simpa using hbefore

/-- One constant for each name, in the order of first occurrence.  Its identifier is the first of
those for the name that no constant before it has. -/
structure Declares (names : List String) (constants : List (String × String)) : Prop where
  keys : constants.map Prod.fst = names.eraseDups
  nodup : (constants.map Prod.fst).Nodup
  chosen : ∀ before constant after, constants = before ++ constant :: after →
    ∃ k ≤ before.length, constant.2 = candidate (wordText constant.1) k ∧
      constant.2 ∉ before.map Prod.snd ∧
      ∀ j < k, candidate (wordText constant.1) j ∈ before.map Prod.snd
  distinct : (constants.map Prod.snd).Nodup

theorem Declares.add {names : List String} {constants : List (String × String)}
    (h : Declares names constants) (name : String) :
    Declares (names ++ [name]) (addConstant constants name) := by
  unfold addConstant
  split
  · rename_i hold
    rw [List.contains_iff_mem, h.keys, List.mem_eraseDups] at hold
    exact { h with keys := by simp [h.keys, List.eraseDups_append, List.cons_removeAll, hold] }
  · rename_i hnew
    rw [List.contains_iff_mem, h.keys, List.mem_eraseDups] at hnew
    obtain ⟨k, hk, hfresh, hunused, htaken⟩ :=
      fresh_spec (constants.map Prod.snd) (wordText name)
    refine ⟨?_, ?_, fun before constant after hsplit => ?_, ?_⟩
    · simp [h.keys, List.eraseDups_append, List.cons_removeAll, List.eraseDups_cons, hnew]
    · rw [List.map_append]
      exact List.Nodup.append h.nodup (List.nodup_singleton _) (by simpa [h.keys] using hnew)
    · rcases List.eq_nil_or_concat after with rfl | ⟨init, last, rfl⟩
      · obtain ⟨rfl, hlast⟩ := List.append_inj' hsplit rfl
        cases hlast
        exact ⟨k, by simpa using hk, hfresh, hfresh ▸ hunused, htaken⟩
      · have hconcat : constants ++ [(name, fresh (constants.map Prod.snd) (wordText name))] =
            (before ++ constant :: init) ++ [last] := by simpa using hsplit
        exact h.chosen before constant init (List.append_inj' hconcat rfl).1
    · rw [List.map_append]
      exact List.Nodup.append h.distinct (List.nodup_singleton _) (by simpa [hfresh] using hunused)

theorem declares_propertyNameConstants (names : List String) :
    Declares names (propertyNameConstants names) := by
  have hfold : ∀ (rest before : List String) (constants : List (String × String)),
      Declares before constants → Declares (before ++ rest) (rest.foldl addConstant constants) := by
    intro rest
    induction rest with
    | nil =>
      intro before constants h
      rwa [List.append_nil]
    | cons name rest ih =>
      intro before constants h
      have hrest := ih (before ++ [name]) _ (h.add name)
      rwa [List.append_assoc] at hrest
  exact hfold names [] [] ⟨rfl, List.nodup_nil, by simp, List.nodup_nil⟩

theorem Declares.mem_iff {names : List String} {constants : List (String × String)}
    (h : Declares names constants) (name : String) :
    name ∈ constants.map Prod.fst ↔ name ∈ names := by
  rw [h.keys, List.mem_eraseDups]

theorem Declares.identifier {names : List String} {constants : List (String × String)}
    (h : Declares names constants) :
    ∀ constant ∈ constants, ∃ k, constant.2 = candidate (wordText constant.1) k := by
  intro constant hconstant
  obtain ⟨before, after, hsplit⟩ := List.append_of_mem hconstant
  obtain ⟨k, _, hid, _⟩ := h.chosen before constant after hsplit
  exact ⟨k, hid⟩

theorem Declares.existsUnique {names : List String} {constants : List (String × String)}
    (h : Declares names constants) {name : String} (hname : name ∈ names) :
    ∃! id, (name, id) ∈ constants := by
  obtain ⟨constant, hconstant, rfl⟩ := List.mem_map.mp ((h.mem_iff name).mpr hname)
  refine ⟨constant.2, hconstant, fun id hid => ?_⟩
  exact (Prod.ext_iff.mp (List.inj_on_of_nodup_map h.nodup hid hconstant rfl)).2

/-- Every name has one constant, in the order of first occurrence, and no two constants have the same
identifier: with `p` constants before it, one of the first `p + 1` identifiers for its name is
unused, and the first such is taken. -/
theorem property_constants_distinct (names : List String) :
    (propertyNameConstants names).map Prod.fst = names.eraseDups ∧
    ((propertyNameConstants names).map Prod.snd).Nodup ∧
    ∀ before name id after, propertyNameConstants names = before ++ (name, id) :: after →
      ∃ k ≤ before.length, id = candidate (wordText name) k ∧ id ∉ before.map Prod.snd ∧
        ∀ j < k, candidate (wordText name) j ∈ before.map Prod.snd := by
  have h := declares_propertyNameConstants names
  exact ⟨h.keys, h.distinct, fun before name id after => h.chosen before (name, id) after⟩

example : propertyNameConstants ["a-b", "a_b_1", "a_b", "a-b", "a b"] =
    [("a-b", "a_bPropertyName"), ("a_b_1", "a_b_1PropertyName"), ("a_b", "a_b_2PropertyName"),
     ("a b", "a_b_3PropertyName")] := by
  decide +kernel

end SceneCompiler.CSharp
