import Mathlib.Logic.Basic
import Mathlib.Tactic.Tauto
import SceneCompiler.Text.Units

/-!
# The order of texts

Texts are ordered by their code units.  The order is total, and as texts are told apart by their units
different texts are in strict order.
-/

namespace SceneCompiler.Text

theorem unitsLe_trans {a b c : List Nat} (hab : unitsLe a b = true) (hbc : unitsLe b c = true) :
    unitsLe a c = true := by
  induction a generalizing b c with
  | nil => rfl
  | cons x a ih =>
    cases b with
    | nil => cases hab
    | cons y b =>
      cases c with
      | nil => cases hbc
      | cons z c =>
        simp only [unitsLe, Bool.or_eq_true, decide_eq_true_eq, Bool.and_eq_true,
          beq_iff_eq] at *
        rcases hab with hxy | ⟨rfl, hab⟩ <;> rcases hbc with hyz | ⟨rfl, hbc⟩
        · exact .inl (Nat.lt_trans hxy hyz)
        · exact .inl hxy
        · exact .inl hyz
        · exact .inr ⟨rfl, ih hab hbc⟩

theorem unitsLe_total (a b : List Nat) : (unitsLe a b || unitsLe b a) = true := by
  induction a generalizing b with
  | nil => rfl
  | cons x a ih =>
    cases b with
    | nil => rfl
    | cons y b =>
      have := ih b
      simp only [unitsLe, Bool.or_eq_true, decide_eq_true_eq, Bool.and_eq_true,
        beq_iff_eq] at *
      rcases Nat.lt_trichotomy x y with h | rfl | h <;> tauto

theorem unitsLe_antisymm {a b : List Nat} (hab : unitsLe a b = true) (hba : unitsLe b a = true) :
    a = b := by
  induction a generalizing b with
  | nil =>
    cases b with
    | nil => rfl
    | cons y b => cases hba
  | cons x a ih =>
    cases b with
    | nil => cases hab
    | cons y b =>
      simp only [unitsLe, Bool.or_eq_true, decide_eq_true_eq, Bool.and_eq_true,
        beq_iff_eq] at hab hba
      rcases hab with hxy | ⟨rfl, hab⟩ <;> rcases hba with hyx | ⟨hyx, hba⟩
      · omega
      · omega
      · omega
      · rw [ih hab hba]

theorem lex_of_unitsLe {a b : List Nat} (h : unitsLe a b = true) (hne : a ≠ b) :
    List.Lex (· < ·) a b := by
  induction a generalizing b with
  | nil =>
    cases b with
    | nil => exact absurd rfl hne
    | cons y b => exact .nil
  | cons x a ih =>
    cases b with
    | nil => cases h
    | cons y b =>
      simp only [unitsLe, Bool.or_eq_true, decide_eq_true_eq, Bool.and_eq_true,
        beq_iff_eq] at h
      rcases h with hlt | ⟨rfl, h⟩
      · exact .rel hlt
      · exact .cons (ih h fun heq => hne (congrArg _ heq))

theorem charUnits_ne_nil (c : Char) : charUnits c ≠ [] := by
  unfold charUnits
  dsimp only
  split <;> exact List.cons_ne_nil _ _

theorem toNat_cases (c : Char) : c.toNat < 0xD800 ∨ 0xDFFF < c.toNat ∧ c.toNat < 0x110000 :=
  c.valid

theorem charUnits_append_inj {c d : Char} {a b : List Nat} (h : charUnits c ++ a = charUnits d ++ b) :
    c = d ∧ a = b := by
  have hc := toNat_cases c
  have hd := toNat_cases d
  rw [← Char.toNat_inj]
  unfold charUnits at h
  dsimp only at h
  split at h <;> split at h <;>
    simp only [List.cons_append, List.nil_append, List.cons.injEq] at h
  · exact h
  · omega
  · omega
  · obtain ⟨hhigh, hlow, hrest⟩ := h
    exact ⟨by omega, hrest⟩

theorem units_injective : Function.Injective units := by
  intro a b h
  have hchars : ∀ left right : List Char, left.flatMap charUnits = right.flatMap charUnits →
      left = right := by
    intro left
    induction left with
    | nil =>
      intro right hright
      cases right with
      | nil => rfl
      | cons d right =>
        rw [List.flatMap_cons] at hright
        exact absurd (List.append_eq_nil_iff.mp hright.symm).1 (charUnits_ne_nil d)
    | cons c left ih =>
      intro right hright
      cases right with
      | nil =>
        rw [List.flatMap_cons] at hright
        exact absurd (List.append_eq_nil_iff.mp hright).1 (charUnits_ne_nil c)
      | cons d right =>
        rw [List.flatMap_cons, List.flatMap_cons] at hright
        obtain ⟨rfl, hrest⟩ := charUnits_append_inj hright
        rw [ih right hrest]
  exact String.toList_inj.mp (hchars _ _ h)

/-! ## Sorted texts -/

theorem pairwise_mergeSort (texts : List String) :
    (texts.mergeSort le).Pairwise fun a b => le a b = true := by
  apply List.pairwise_mergeSort
  · exact fun _ _ _ => unitsLe_trans
  · exact fun _ _ => unitsLe_total _ _

theorem mergeSort_ascends {texts : List String} (h : texts.Nodup) :
    (texts.mergeSort le).Pairwise fun a b => List.Lex (· < ·) (units a) (units b) := by
  have hne : (texts.mergeSort le).Pairwise (· ≠ ·) := (List.mergeSort_perm _ _).nodup_iff.mpr h
  exact ((pairwise_mergeSort texts).and hne).imp fun hab =>
    lex_of_unitsLe hab.1 (units_injective.ne hab.2)

theorem mergeSort_eq_of_perm {texts texts' : List String} (h : texts.Perm texts') :
    texts.mergeSort le = texts'.mergeSort le := by
  refine List.Perm.eq_of_pairwise (fun a b _ _ hab hba => units_injective (unitsLe_antisymm hab hba))
    (pairwise_mergeSort texts) (pairwise_mergeSort texts') ?_
  exact ((List.mergeSort_perm _ _).trans h).trans (List.mergeSort_perm _ _).symm

end SceneCompiler.Text
