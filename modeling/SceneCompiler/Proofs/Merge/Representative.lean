import SceneCompiler.Proofs.Graph.Walk
import SceneCompiler.Proofs.Merge.Grouping

/-!
# Representatives

Every object of a graph is represented by the first object of its group.  Objects with one
representative refer to the same representatives in the same order, so a representative other than
the root is referred to by an earlier representative, whatever was merged on the way to it.
-/

namespace SceneCompiler.Merge

variable {n : Nat}

def targets (m : Merge n) (i : Fin n) : List (Fin n) :=
  (m.graph.outReferences i).map fun k => m.representative[k]

/-- What merging by `atoms` keeps to. -/
structure Lawful (m : Merge n) (atoms : Fin n → Option (List Atom)) : Prop where
  ordered : m.graph.Ordered
  mem_order : ∀ i ∈ m.graph.order, m.representative[i] ∈ m.graph.order
  index_le : ∀ i ∈ m.graph.order, m.graph.index m.representative[i] ≤ m.graph.index i
  idem : ∀ i ∈ m.graph.order, m.representative[m.representative[i]] = m.representative[i]
  alike : ∀ i ∈ m.graph.order, ∀ j ∈ m.graph.order,
    m.representative[i] = m.representative[j] →
      i = j ∨ ∃ fields, atoms i = some fields ∧ atoms j = some fields ∧ m.targets i = m.targets j

section OfGraph

variable (g : Graph n) (atoms : Fin n → Option (List Atom))

def groupOf (i : Fin n) : Option Nat :=
  (Grouping.ofGraph g atoms).groups.lookup i

private theorem representative_ofGraph (i : Fin n) :
    (ofGraph g atoms).representative[i] =
      (g.order.find? fun j => groupOf g atoms j == groupOf g atoms i).getD i := by
  simp [ofGraph, groupOf]

private theorem representative_spec {i : Fin n} (hi : i ∈ g.order) :
    (ofGraph g atoms).representative[i] ∈ g.order ∧
      groupOf g atoms (ofGraph g atoms).representative[i] = groupOf g atoms i ∧
      g.index (ofGraph g atoms).representative[i] ≤ g.index i := by
  rw [representative_ofGraph]
  cases hfind : g.order.find? fun j => groupOf g atoms j == groupOf g atoms i with
  | none =>
    have hnone := List.find?_eq_none.mp hfind i hi
    simp at hnone
  | some j =>
    obtain ⟨hgroup, before, after, horder, hbefore⟩ := List.find?_eq_some_iff_append.mp hfind
    have hj : j ∈ g.order := List.mem_of_find?_eq_some hfind
    refine ⟨hj, by simpa using hgroup, ?_⟩
    have hnot : ∀ k, groupOf g atoms k = groupOf g atoms i → k ∉ before := by
      intro k hk hmem
      simpa [hk] using hbefore k hmem
    change g.order.idxOf j ≤ g.order.idxOf i
    rw [horder, List.idxOf_append_of_notMem (hnot i rfl),
      List.idxOf_append_of_notMem (hnot j (by simpa using hgroup))]
    simp

theorem representative_eq_iff {i j : Fin n} (hi : i ∈ g.order) (hj : j ∈ g.order) :
    (ofGraph g atoms).representative[i] = (ofGraph g atoms).representative[j] ↔
      groupOf g atoms i = groupOf g atoms j := by
  constructor
  · intro h
    have hgi := (representative_spec g atoms hi).2.1
    have hgj := (representative_spec g atoms hj).2.1
    rw [← hgi, h, hgj]
  · intro h
    rw [representative_ofGraph, representative_ofGraph, h]
    have hsome : (g.order.find? fun k => groupOf g atoms k == groupOf g atoms j).isSome := by
      rw [List.find?_isSome]
      exact ⟨j, hj, by simp⟩
    obtain ⟨k, hk⟩ := Option.isSome_iff_exists.mp hsome
    simp [hk]

private theorem map_representative_eq {is js : List (Fin n)}
    (h : List.Forall₂ (Grouping.ofGraph g atoms).Alike is js)
    (hi : is ⊆ g.order) (hj : js ⊆ g.order) :
    (is.map fun k => (ofGraph g atoms).representative[k]) =
      js.map fun k => (ofGraph g atoms).representative[k] := by
  induction h with
  | nil => rfl
  | cons hab _ ih =>
    obtain ⟨ha, has⟩ := List.cons_subset.mp hi
    obtain ⟨hb, hbs⟩ := List.cons_subset.mp hj
    rw [List.map_cons, List.map_cons, ih has hbs]
    rcases hab with rfl | ⟨k, hka, hkb⟩
    · rfl
    · rw [(representative_eq_iff g atoms ha hb).mpr (hka.trans hkb.symm)]

theorem ofGraph_lawful (hg : g.Ordered) : (ofGraph g atoms).Lawful atoms := by
  refine ⟨hg, fun i hi => (representative_spec g atoms hi).1,
    fun i hi => (representative_spec g atoms hi).2.2, ?_, ?_⟩
  · intro i hi
    have hspec := representative_spec g atoms hi
    exact (representative_eq_iff g atoms hspec.1 hi).mpr hspec.2.1
  · intro i hi j hj hij
    obtain ⟨k, hk⟩ := Grouping.ofGraph_grouped atoms g hi
    have hgroup := (representative_eq_iff g atoms hi hj).mp hij
    have hk' : (Grouping.ofGraph g atoms).groups.lookup j = some k := hgroup.symm.trans hk
    rcases (Grouping.ofGraph_sound atoms g).alike g.heap atoms hk hk' with
      h | ⟨fields, hfields, hfields', hrefs⟩
    · exact .inl h
    · exact .inr ⟨fields, hfields, hfields',
        map_representative_eq g atoms hrefs (hg.closed i hi) (hg.closed j hj)⟩

end OfGraph

theorem mem_representatives {m : Merge n} {i : Fin n} :
    i ∈ m.representatives ↔ i ∈ m.graph.order ∧ m.representative[i] = i := by
  simp [representatives]

namespace Lawful

variable {m : Merge n} {atoms : Fin n → Option (List Atom)} (hm : m.Lawful atoms)

include hm

theorem representative_mem {i : Fin n} (hi : i ∈ m.graph.order) :
    m.representative[i] ∈ m.representatives :=
  mem_representatives.mpr ⟨hm.mem_order i hi, hm.idem i hi⟩

theorem targets_eq {i : Fin n} (hi : i ∈ m.graph.order) :
    m.targets m.representative[i] = m.targets i := by
  rcases hm.alike _ (hm.mem_order i hi) i hi (hm.idem i hi) with h | ⟨_, _, _, h⟩
  · rw [h]
  · exact h

theorem targets_subset {i : Fin n} (hi : i ∈ m.graph.order) :
    m.targets i ⊆ m.representatives := by
  intro j hj
  obtain ⟨k, hk, rfl⟩ := List.mem_map.mp hj
  exact hm.representative_mem (hm.ordered.closed i hi hk)

theorem eq_of_alone {i j : Fin n} (hi : i ∈ m.graph.order) (hj : j ∈ m.graph.order)
    (halone : atoms i = none) (h : m.representative[j] = m.representative[i]) : j = i := by
  rcases hm.alike j hj i hi h with h | ⟨fields, _, hfields, _⟩
  · exact h
  · rw [halone] at hfields
    cases hfields

theorem representative_of_alone {i : Fin n} (hi : i ∈ m.graph.order) (halone : atoms i = none) :
    m.representative[i] = i :=
  hm.eq_of_alone hi (hm.mem_order i hi) halone (hm.idem i hi)

theorem exists_earlier_referencer {j : Fin n} (hj : j ∈ m.representatives)
    (hroot : j ≠ m.graph.root) :
    ∃ i ∈ m.representatives, j ∈ m.targets i ∧ m.graph.index i < m.graph.index j := by
  obtain ⟨hmem, hself⟩ := mem_representatives.mp hj
  obtain ⟨p, hp, hpj, hlt⟩ := hm.ordered.parent j hmem hroot
  refine ⟨m.representative[p], hm.representative_mem hp, ?_, ?_⟩
  · rw [hm.targets_eq hp]
    exact List.mem_map.mpr ⟨j, hpj, hself⟩
  · exact lt_of_le_of_lt (hm.index_le p hp) hlt

theorem nodup_representatives : m.representatives.Nodup :=
  hm.ordered.nodup.filter _

end Lawful

theorem mem_inReferences {m : Merge n} {i j : Fin n} :
    i ∈ m.inReferences j ↔ i ∈ m.representatives ∧ j ∈ m.targets i := by
  simp only [inReferences, targets, List.mem_flatMap, List.mem_filterMap, List.mem_map]
  constructor
  · rintro ⟨k, hk, a, ha, h⟩
    split at h
    · rename_i hrep
      cases h
      exact ⟨hk, a, ha, hrep⟩
    · cases h
  · rintro ⟨hi, a, ha, hrep⟩
    exact ⟨i, hi, a, ha, by simp [hrep]⟩

end SceneCompiler.Merge
