import Mathlib.Data.List.Forall2
import Mathlib.Data.List.Nodup
import Mathlib.Data.Option.Basic

/-!
# Entries by their keys

In a list of entries whose keys are all different, what is found under a key is what stands under it.
-/

namespace SceneCompiler

variable {α β : Type} [BEq α] [LawfulBEq α] {entries : List (α × β)} {a : α} {b : β}

theorem lookup_of_mem_nodup (h : (entries.map Prod.fst).Nodup) (hmem : (a, b) ∈ entries) :
    entries.lookup a = some b := by
  obtain ⟨before, after, rfl⟩ := List.append_of_mem hmem
  rw [List.map_append, List.nodup_append] at h
  refine List.lookup_eq_some_iff.mpr ⟨before, after, rfl, fun other hother => ?_⟩
  have hne := h.2.2 other.1 (List.mem_map_of_mem hother) a (by simp)
  simpa using hne.symm

theorem mem_of_lookup (h : entries.lookup a = some b) : (a, b) ∈ entries := by
  obtain ⟨before, after, hsplit, _⟩ := List.lookup_eq_some_iff.mp h
  simp [hsplit]

theorem lookup_eq_some_iff_mem (h : (entries.map Prod.fst).Nodup) :
    entries.lookup a = some b ↔ (a, b) ∈ entries :=
  ⟨mem_of_lookup, lookup_of_mem_nodup h⟩

theorem lookup_eq_none_iff_key : entries.lookup a = none ↔ a ∉ entries.map Prod.fst := by
  rw [List.lookup_eq_none_iff]
  simp only [bne_iff_ne, List.mem_map, not_exists, not_and]
  exact ⟨fun h e he heq => h e he heq.symm, fun h e he heq => h e he heq.symm⟩

theorem lookup_filter_key (p : α → Bool) (entries : List (α × β)) :
    (entries.filter fun e => p e.1).lookup a = if p a then entries.lookup a else none := by
  induction entries with
  | nil => simp
  | cons e entries ih =>
    rcases e with ⟨key, b⟩
    simp only [List.filter_cons, List.lookup_cons]
    cases hkey : a == key with
    | false => split <;> simp only [List.lookup_cons, hkey, ih]
    | true =>
      obtain rfl := eq_of_beq hkey
      by_cases hp : p a = true
      · simp only [if_pos hp, List.lookup_cons, beq_self_eq_true]
      · rw [if_neg hp, ih, if_neg hp, if_neg hp]

omit [LawfulBEq α] in
theorem rel_lookup {γ : Type} {R : β → γ → Prop} {entries' : List (α × γ)}
    (h : List.Forall₂ (fun e e' => e.1 = e'.1 ∧ R e.2 e'.2) entries entries') (a : α) :
    Option.Rel R (entries.lookup a) (entries'.lookup a) := by
  induction h with
  | nil => exact .none
  | @cons e e' _ _ hentry _ ih =>
    rw [List.lookup_cons, List.lookup_cons, hentry.1]
    cases a == e'.1 with
    | false => exact ih
    | true => exact .some hentry.2

theorem lookup_cons_text {β : Type} (entries : List (String × β)) (key other : String) (b : β) :
    List.lookup key ((other, b) :: entries) =
      if other = key then some b else entries.lookup key := by
  by_cases h : other = key
  · simp [h]
  · simp [List.lookup_cons, h, beq_false_of_ne (Ne.symm h)]

theorem exists_of_forall₂ {α β : Type} {R : α → β → Prop} {as : List α} {bs : List β}
    (h : List.Forall₂ R as bs) {b : β} (hb : b ∈ bs) : ∃ a ∈ as, R a b := by
  induction h with
  | nil => cases hb
  | cons hab _ ih =>
    rcases List.mem_cons.mp hb with rfl | hb
    · exact ⟨_, List.mem_cons_self, hab⟩
    · obtain ⟨a, ha, hab⟩ := ih hb
      exact ⟨a, List.mem_cons_of_mem _ ha, hab⟩

end SceneCompiler
