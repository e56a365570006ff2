import Mathlib.Algebra.BigOperators.Fin
import Mathlib.Algebra.Order.BigOperators.Group.Finset
import SceneCompiler.Proofs.Constructor.Visit

/-!
# How often an object is visited

An object is visited once for each visit of an earlier object that refers to it, and the root once
more.  So every object is visited, and each is visited only once exactly if none has two earlier
objects that refer to it.
-/

namespace SceneCompiler.Merge

variable {n : Nat} (m : Merge n)

def SingleCaller : Prop :=
  ∀ r ∈ m.representatives, ∀ i ∈ m.inReferences r, ∀ j ∈ m.inReferences r,
    m.graph.index i < m.graph.index r → m.graph.index j < m.graph.index r → i = j

instance : Decidable m.SingleCaller :=
  inferInstanceAs (Decidable (∀ r ∈ m.representatives, ∀ i ∈ m.inReferences r,
    ∀ j ∈ m.inReferences r, _ → _ → _))

def visited (i : Fin n) : (before targets : List (Fin n)) → List (Fin n)
  | _, [] => []
  | before, j :: rest =>
    (if m.visits i before j then [j] else []) ++ visited i (before ++ [j]) rest

def entries (depth : Nat) (i j : Fin n) : Nat :=
  (m.visit depth i).count (.enter j)

def calls (i j : Fin n) : Nat :=
  (m.visited i [] (m.targets i)).count j

variable {m}

theorem count_visited (i j : Fin n) (before targets : List (Fin n)) :
    (m.visited i before targets).count j =
      if j ∈ targets ∧ j ∉ before ∧ m.graph.index i < m.graph.index j then 1 else 0 := by
  induction targets generalizing before with
  | nil => simp [visited]
  | cons k targets ih =>
    rw [visited, List.count_append, ih]
    by_cases hk : j = k
    · subst hk
      by_cases hbefore : j ∈ before <;> by_cases hlt : m.graph.index i < m.graph.index j <;>
        simp [visits, hbefore, hlt]
    · have hcount : (if m.visits i before k then [k] else []).count j = 0 := by
        split <;> simp [Ne.symm hk]
      rw [hcount]
      simp [hk]

theorem calls_eq (i j : Fin n) :
    m.calls i j = if j ∈ m.targets i ∧ m.graph.index i < m.graph.index j then 1 else 0 := by
  rw [calls, count_visited]
  simp

theorem mem_visited {i j : Fin n} (h : j ∈ m.visited i [] (m.targets i)) :
    j ∈ m.targets i ∧ m.graph.index i < m.graph.index j := by
  by_contra hnot
  have hcount := calls_eq (m := m) i j
  rw [if_neg hnot] at hcount
  exact absurd h (List.count_eq_zero.mp hcount)

theorem count_follow (visit : Fin n → List (Mark n)) (i j : Fin n) (before targets : List (Fin n)) :
    (m.follow visit i before targets).count (.enter j) =
      ((m.visited i before targets).map fun k => (visit k).count (.enter j)).sum := by
  induction targets generalizing before with
  | nil => rfl
  | cons k targets ih =>
    rw [follow, List.count_append, ih, visited, List.map_append, List.sum_append, step]
    congr 1
    split <;> simp

theorem entries_succ (depth : Nat) (i j : Fin n) :
    m.entries (depth + 1) i j = (if i = j then 1 else 0) +
      ((m.visited i [] (m.targets i)).map fun k => m.entries depth k j).sum := by
  have hcount := count_follow (m := m) (m.visit depth) i j [] (m.targets i)
  rw [follow_targets, List.count_append] at hcount
  rw [entries, visit, List.count_cons, List.count_append, List.count_cons]
  simp only [beq_iff_eq, Mark.enter.injEq, reduceCtorEq, if_false]
  unfold entries
  omega

private theorem sum_swap (ks : List (Fin n)) (j : Fin n) (f : Fin n → Fin n → Nat)
    (w : Fin n → Nat) :
    (ks.map fun k => (if k = j then 1 else 0) + ∑ u, f k u * w u).sum =
      ks.count j + ∑ u, (ks.map fun k => f k u).sum * w u := by
  induction ks with
  | nil => simp
  | cons k ks ih =>
    simp only [List.map_cons, List.sum_cons, ih, add_mul, Finset.sum_add_distrib, List.count_cons,
      beq_iff_eq]
    omega

section Lawful

variable {keep : Bool} (hm : m.Lawful (m.graph.atoms keep))

include hm

theorem entries_eq (depth : Nat) {i : Fin n} (hi : i ∈ m.representatives)
    (hdepth : m.graph.order.length ≤ depth + m.graph.index i) (j : Fin n) :
    m.entries depth i j = (if i = j then 1 else 0) + ∑ u, m.entries depth i u * m.calls u j := by
  induction depth generalizing i with
  | zero =>
    have hindex : m.graph.index i < m.graph.order.length :=
      List.idxOf_lt_length_of_mem (mem_representatives.mp hi).1
    omega
  | succ depth ih =>
    have hvisited : ∀ k ∈ m.visited i [] (m.targets i), m.entries depth k j =
        (if k = j then 1 else 0) + ∑ u, m.entries depth k u * m.calls u j := by
      intro k hk
      obtain ⟨hmem, hlt⟩ := mem_visited hk
      exact ih (hm.targets_subset (mem_representatives.mp hi).1 hmem) (by omega)
    rw [entries_succ, List.map_congr_left hvisited, sum_swap]
    simp only [entries_succ, add_mul, Finset.sum_add_distrib, ite_mul, one_mul, zero_mul,
      Finset.sum_ite_eq, Finset.mem_univ, if_true]
    rfl

theorem mem_representatives_of_entries {depth : Nat} {i j : Fin n} (hi : i ∈ m.representatives)
    (h : m.entries depth i j ≠ 0) : j ∈ m.representatives := by
  induction depth generalizing i with
  | zero => exact absurd rfl h
  | succ depth ih =>
    rcases mem_visit_succ.mp (List.count_pos_iff.mp (Nat.pos_of_ne_zero h)) with
      henter | hcreate | hfollow
    · cases henter
      exact hi
    · cases hcreate
    · obtain ⟨k, hk, hread | ⟨_, hvisit⟩⟩ := mem_follow hfollow
      · cases hread
      · refine ih (hm.targets_subset (mem_representatives.mp hi).1 hk) ?_
        exact (List.count_pos_iff.mpr hvisit).ne'

variable (hroot : m.graph.root ∈ m.representatives)

include hroot

theorem entries_root (j : Fin n) :
    m.entries n m.graph.root j = (if m.graph.root = j then 1 else 0) +
      ∑ u, m.entries n m.graph.root u * m.calls u j := by
  refine entries_eq hm n hroot ?_ j
  have hlength := hm.ordered.length_le
  omega

theorem one_le_entries {j : Fin n} (hj : j ∈ m.representatives) :
    1 ≤ m.entries n m.graph.root j := by
  induction hindex : m.graph.index j using Nat.strong_induction_on generalizing j with
  | _ index ih =>
    rw [entries_root hm hroot]
    by_cases heq : m.graph.root = j
    · rw [if_pos heq]
      omega
    · obtain ⟨u, hu, huj, hlt⟩ := hm.exists_earlier_referencer hj (Ne.symm heq)
      have hone := ih _ (hindex ▸ hlt) hu rfl
      have hle := Finset.single_le_sum (f := fun u => m.entries n m.graph.root u * m.calls u j)
        (fun _ _ => Nat.zero_le _) (Finset.mem_univ u)
      simp only [calls_eq u j, huj, hlt, and_self, if_true, mul_one] at hle
      omega

theorem entries_eq_one (h : m.SingleCaller) {j : Fin n} (hj : j ∈ m.representatives) :
    m.entries n m.graph.root j = 1 := by
  induction hindex : m.graph.index j using Nat.strong_induction_on generalizing j with
  | _ index ih =>
    rw [entries_root hm hroot]
    by_cases heq : m.graph.root = j
    · have hzero : ∑ u, m.entries n m.graph.root u * m.calls u j = 0 := by
        refine Finset.sum_eq_zero fun u _ => ?_
        rw [calls_eq, ← heq, hm.ordered.index_root]
        simp
      rw [if_pos heq, hzero]
    · obtain ⟨u, hu, huj, hlt⟩ := hm.exists_earlier_referencer hj (Ne.symm heq)
      have hsum : ∑ v, m.entries n m.graph.root v * m.calls v j =
          m.entries n m.graph.root u * m.calls u j := by
        refine Finset.sum_eq_single u (fun v _ hne => ?_) (by simp)
        by_contra hzero
        obtain ⟨hentries, hcalls⟩ := not_or.mp (mt mul_eq_zero.mpr hzero)
        have hv := mem_representatives_of_entries hm hroot hentries
        rw [calls_eq] at hcalls
        obtain ⟨hvj, hvlt⟩ := Decidable.of_not_not fun hnot => hcalls (if_neg hnot)
        exact hne (h j hj v (mem_inReferences.mpr ⟨hv, hvj⟩) u
          (mem_inReferences.mpr ⟨hu, huj⟩) hvlt hlt)
      rw [if_neg heq, hsum, calls_eq, if_pos ⟨huj, hlt⟩, ih _ (hindex ▸ hlt) hu rfl]

theorem two_le_entries {r i j : Fin n} (hi : i ∈ m.inReferences r) (hj : j ∈ m.inReferences r)
    (hir : m.graph.index i < m.graph.index r) (hjr : m.graph.index j < m.graph.index r)
    (hne : i ≠ j) : 2 ≤ m.entries n m.graph.root r := by
  obtain ⟨hi, hri⟩ := mem_inReferences.mp hi
  obtain ⟨hj, hrj⟩ := mem_inReferences.mp hj
  have hpair := Finset.sum_le_sum_of_subset
    (f := fun u => m.entries n m.graph.root u * m.calls u r) (Finset.subset_univ {i, j})
  rw [Finset.sum_pair hne, calls_eq i, calls_eq j, if_pos ⟨hri, hir⟩, if_pos ⟨hrj, hjr⟩] at hpair
  have hione := one_le_entries hm hroot hi
  have hjone := one_le_entries hm hroot hj
  rw [entries_root hm hroot]
  omega

end Lawful

end SceneCompiler.Merge
