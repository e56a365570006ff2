import Mathlib.Data.Fintype.Card
import SceneCompiler.Proofs.Graph.Walk
import SceneCompiler.Proofs.Model.Invariance

/-!
# One graph inside another

A graph lies inside another if its objects are found there at other places, with their references
renamed to match.  Walks and groups then match too: where a computation is bounded by the number of
objects, a larger bound changes nothing.
-/

namespace SceneCompiler

variable {n k : Nat} {φ : Fin n → Fin k}

theorem beq_of_injective {α β : Type} [BEq α] [LawfulBEq α] [BEq β] [LawfulBEq β] {f : α → β}
    (hf : Function.Injective f) (a b : α) : (f a == f b) = (a == b) := by
  rw [Bool.eq_iff_iff, beq_iff_eq, beq_iff_eq, hf.eq_iff]

theorem contains_map {α β : Type} [BEq α] [LawfulBEq α] [BEq β] [LawfulBEq β] {f : α → β}
    (hf : Function.Injective f) (as : List α) (a : α) :
    (as.map f).contains (f a) = as.contains a := by
  rw [Bool.eq_iff_iff, List.contains_iff_mem, List.contains_iff_mem, List.mem_map_of_injective hf]

theorem lookup_map_key {α β γ : Type} [BEq α] [LawfulBEq α] [BEq β] [LawfulBEq β] {f : α → β}
    (hf : Function.Injective f) (entries : List (α × γ)) (a : α) :
    (entries.map fun e => (f e.1, e.2)).lookup (f a) = entries.lookup a := by
  induction entries with
  | nil => rfl
  | cons e entries ih =>
    rw [List.map_cons, List.lookup_cons, List.lookup_cons, ih, beq_of_injective hf]

/-! ## Order -/

/-- The objects of one heap are found in another, with their references renamed. -/
structure Heap.Embeds (heap : Heap n) (heap' : Heap k) (φ : Fin n → Fin k) : Prop where
  injective : Function.Injective φ
  object : ∀ i : Fin n, heap'[φ i] = heap[i].map φ

namespace Graph

/-- A graph lies inside another, with the same root and in the same order. -/
structure Embeds (g : Graph n) (g' : Graph k) (φ : Fin n → Fin k) : Prop
    extends onHeap : g.heap.Embeds g'.heap φ where
  root : g'.root = φ g.root
  order : g'.order = g.order.map φ

theorem Explores.map {references : Fin n → List (Fin n)} {references' : Fin k → List (Fin k)}
    (hφ : Function.Injective φ) (hreferences : ∀ i, references' (φ i) = (references i).map φ)
    {pending seen after : List (Fin n)} (h : Explores references pending seen after) :
    Explores references' (pending.map φ) (seen.map φ) (after.map φ) := by
  induction h with
  | done seen => exact .done _
  | skip hseen _ ih => exact .skip (List.mem_map_of_mem hseen) ih
  | visit hnew _ _ ihBelow ihRest =>
    refine .visit (fun hmem => hnew ((List.mem_map_of_injective hφ).mp hmem)) ?_ ihRest
    rw [hreferences]
    simpa using ihBelow

theorem embeds_ofRoot {heap : Heap n} {heap' : Heap k} (h : heap.Embeds heap' φ) (root : Fin n) :
    (ofRoot heap root).Embeds (ofRoot heap' (φ root)) φ := by
  refine ⟨h, rfl, ?_⟩
  refine (depthFirst_explores (fun i => heap'[i].references) (φ root)).unique ?_
  refine Explores.map h.injective (fun i => ?_) (depthFirst_explores _ root)
  rw [h.object, Object.references_map]

namespace Embeds

variable {g : Graph n} {g' : Graph k} (h : g.Embeds g' φ)

include h

theorem object_eq (i : Fin n) : g'.object (φ i) = (g.object i).map φ :=
  h.object i

theorem outReferences (i : Fin n) : g'.outReferences (φ i) = (g.outReferences i).map φ := by
  rw [Graph.outReferences, h.object_eq, Object.references_map]
  rfl

theorem index (i : Fin n) : g'.index (φ i) = g.index i := by
  rw [Graph.index, Graph.index, h.order, List.idxOf, List.idxOf, List.findIdx_map]
  congr 1
  funext j
  exact beq_of_injective h.injective j i

theorem contains (i : Fin n) : g'.contains (φ i) = g.contains i := by
  rw [Graph.contains, Graph.contains, h.order, contains_map h.injective]

theorem atoms (keep : Bool) (i : Fin n) : g'.atoms keep (φ i) = g.atoms keep i := by
  rw [Graph.atoms, h.object_eq, Object.atoms?_map]
  rfl

end Embeds

end Graph

/-! ## Groups -/

def Label.map (φ : Fin n → Fin k) : Label n → Label k
  | .group g => .group g
  | .unfinished i => .unfinished (φ i)

def Key.map (φ : Fin n → Fin k) : Key n → Key k
  | .alone i => .alone (φ i)
  | .shared fields references => .shared fields (references.map (Label.map φ))

def Grouping.map (φ : Fin n → Fin k) (s : Grouping n) : Grouping k :=
  ⟨s.keys.map (Key.map φ), s.groups.map fun e => (φ e.1, e.2)⟩

theorem Label.map_injective (hφ : Function.Injective φ) : Function.Injective (Label.map φ) := by
  intro a b h
  cases a <;> cases b <;> simp_all [Label.map, hφ.eq_iff]

theorem Key.map_injective (hφ : Function.Injective φ) : Function.Injective (Key.map φ) := by
  intro a b h
  have hlabels := List.map_injective_iff.mpr (Label.map_injective hφ)
  cases a <;> cases b <;> simp_all [Key.map, hφ.eq_iff, hlabels.eq_iff]

namespace Grouping

def mapResult (φ : Fin n → Fin k) (result : Label n × Grouping n) : Label k × Grouping k :=
  (result.1.map φ, result.2.map φ)

theorem insert_map (hφ : Function.Injective φ) (s : Grouping n) (i : Fin n) (key : Key n) :
    (s.map φ).insert (φ i) (key.map φ) = mapResult φ (s.insert i key) := by
  have hidx : (s.map φ).keys.idxOf? (key.map φ) = s.keys.idxOf? key := by
    rw [Grouping.map, List.idxOf?, List.idxOf?, List.findIdx?_map]
    congr 1
    funext other
    exact beq_of_injective (Key.map_injective hφ) other key
  rw [insert, insert, hidx]
  cases s.keys.idxOf? key <;> simp [mapResult, Grouping.map, Label.map]

theorem labels_map {find : Grouping n → Fin n → Label n × Grouping n}
    {find' : Grouping k → Fin k → Label k × Grouping k}
    (hfind : ∀ s i, find' (s.map φ) (φ i) = mapResult φ (find s i)) (s : Grouping n)
    (is : List (Fin n)) :
    labels find' (s.map φ) (is.map φ) =
      ((labels find s is).1.map (Label.map φ), (labels find s is).2.map φ) := by
  induction is generalizing s with
  | nil => rfl
  | cons i is ih =>
    simp only [List.map_cons, labels, hfind, mapResult, ih]

theorem label_map {heap : Heap n} {heap' : Heap k} (h : heap.Embeds heap' φ)
    {atoms : Fin n → Option (List Atom)} {atoms' : Fin k → Option (List Atom)}
    (hatoms : ∀ i, atoms' (φ i) = atoms i) (fuel : Nat) (active : List (Fin n)) (s : Grouping n)
    (i : Fin n) :
    label heap' atoms' fuel (active.map φ) (s.map φ) (φ i) =
      mapResult φ (label heap atoms fuel active s i) := by
  induction fuel generalizing active s i with
  | zero => rfl
  | succ fuel ih =>
    have hlookup : (s.map φ).groups.lookup (φ i) = s.groups.lookup i :=
      lookup_map_key h.injective s.groups i
    have hactive := contains_map h.injective active i
    have hlabels := labels_map (fun s j => ih (i :: active) s j) s heap[i].references
    rw [← Object.references_map, ← h.object] at hlabels
    rw [label, label, hlookup]
    cases s.groups.lookup i with
    | some g => rfl
    | none =>
      simp only [hactive, hatoms]
      split
      · rfl
      · cases atoms i with
        | none => exact insert_map h.injective s i (.alone i)
        | some fields =>
          simp only [List.map_cons] at hlabels
          simp only [hlabels]
          exact insert_map h.injective _ i (.shared fields _)

theorem label_succ (heap : Heap n) (atoms : Fin n → Option (List Atom)) (fuel : Nat)
    {active : List (Fin n)} (hactive : active.Nodup) (hfuel : n < active.length + fuel)
    (s : Grouping n) (i : Fin n) :
    label heap atoms (fuel + 1) active s i = label heap atoms fuel active s i := by
  induction fuel generalizing active s i with
  | zero =>
    have hlength := hactive.length_le_card
    rw [Fintype.card_fin] at hlength
    omega
  | succ fuel ih =>
    rw [label, label]
    cases s.groups.lookup i with
    | some g => rfl
    | none =>
      by_cases hi : active.contains i = true
      · simp only [hi, if_true]
      · have hnodup : (i :: active).Nodup :=
          List.nodup_cons.mpr ⟨by simpa using hi, hactive⟩
        have hfind : label heap atoms (fuel + 1) (i :: active) =
            label heap atoms fuel (i :: active) := by
          funext s j
          exact ih hnodup (by simp only [List.length_cons]; omega) s j
        simp only [hi, hfind]

theorem label_of_le (heap : Heap n) (atoms : Fin n → Option (List Atom)) {fuel : Nat}
    (hfuel : n < fuel) : label heap atoms fuel [] = label heap atoms (n + 1) [] := by
  induction fuel, hfuel using Nat.le_induction with
  | base => rfl
  | succ fuel hfuel ih =>
    rw [← ih]
    funext s i
    exact label_succ heap atoms fuel List.nodup_nil (by simp only [List.length_nil]; omega) s i

end Grouping

theorem Grouping.ofGraph_map {g : Graph n} {g' : Graph k} (h : g.Embeds g' φ) (keep : Bool) :
    Grouping.ofGraph g' (g'.atoms keep) = (Grouping.ofGraph g (g.atoms keep)).map φ := by
  have hle : n ≤ k := by simpa using Fintype.card_le_of_injective φ h.injective
  have hlabel (s : Grouping n) (i : Fin n) :
      label g'.heap (g'.atoms keep) (k + 1) [] (s.map φ) (φ i) =
        mapResult φ (label g.heap (g.atoms keep) (n + 1) [] s i) := by
    rw [← label_of_le g.heap (g.atoms keep) (Nat.lt_succ_of_le hle)]
    exact label_map h.onHeap (h.atoms keep) (k + 1) [] s i
  have hfold (is : List (Fin n)) (s : Grouping n) :
      (is.map φ).foldl (fun s i => (label g'.heap (g'.atoms keep) (k + 1) [] s i).2) (s.map φ) =
        (is.foldl (fun s i => (label g.heap (g.atoms keep) (n + 1) [] s i).2) s).map φ := by
    induction is generalizing s with
    | nil => rfl
    | cons i is ih =>
      rw [List.map_cons, List.foldl_cons, List.foldl_cons, hlabel]
      exact ih _
  rw [Grouping.ofGraph, h.order]
  exact hfold g.order {}

/-! ## Representatives -/

namespace Merge

/-- A merged graph lies inside another: representatives match as well. -/
structure Embeds (m : Merge n) (m' : Merge k) (φ : Fin n → Fin k) : Prop
    extends onGraph : m.graph.Embeds m'.graph φ where
  representative : ∀ i : Fin n, m'.representative[φ i] = φ m.representative[i]

theorem embeds_ofGraph {g : Graph n} {g' : Graph k} (h : g.Embeds g' φ) (keep : Bool) :
    (ofGraph g (g.atoms keep)).Embeds (ofGraph g' (g'.atoms keep)) φ := by
  refine ⟨h, fun i => ?_⟩
  have hgroup (i : Fin n) : (Grouping.ofGraph g' (g'.atoms keep)).groups.lookup (φ i) =
      (Grouping.ofGraph g (g.atoms keep)).groups.lookup i := by
    rw [Grouping.ofGraph_map h]
    exact lookup_map_key h.injective _ i
  have hfind (is : List (Fin n)) :
      (is.map φ).find? (fun j => (Grouping.ofGraph g' (g'.atoms keep)).groups.lookup j ==
          (Grouping.ofGraph g' (g'.atoms keep)).groups.lookup (φ i)) =
        (is.find? fun j => (Grouping.ofGraph g (g.atoms keep)).groups.lookup j ==
          (Grouping.ofGraph g (g.atoms keep)).groups.lookup i).map φ := by
    rw [List.find?_map]
    congr 2
    funext j
    rw [Function.comp_apply, hgroup, hgroup]
  simp only [ofGraph, getElem_place, Vector.getElem_ofFn, Fin.eta]
  rw [h.order, hfind]
  cases g.order.find? fun j => (Grouping.ofGraph g (g.atoms keep)).groups.lookup j ==
    (Grouping.ofGraph g (g.atoms keep)).groups.lookup i <;> rfl

namespace Embeds

variable {m : Merge n} {m' : Merge k} (h : m.Embeds m' φ)

include h

theorem object_eq (i : Fin n) : m'.object (φ i) = (m.object i).map φ :=
  h.object i

theorem representatives : m'.representatives = m.representatives.map φ := by
  rw [Merge.representatives, h.order, List.filter_map]
  congr 2
  funext i
  rw [Function.comp_apply, h.representative, beq_of_injective h.injective]

theorem groupSize (r : Fin n) : m'.groupSize (φ r) = m.groupSize r := by
  rw [Merge.groupSize, h.order, List.countP_map]
  congr 1
  funext i
  rw [Function.comp_apply, h.representative, beq_of_injective h.injective]

theorem inReferences (r : Fin n) : m'.inReferences (φ r) = (m.inReferences r).map φ := by
  rw [Merge.inReferences, Merge.inReferences, h.representatives, List.flatMap_map,
    List.map_flatMap]
  congr 1
  funext i
  rw [h.outReferences, List.filterMap_map, List.map_filterMap]
  congr 1
  funext j
  rw [Function.comp_apply, h.representative]
  by_cases hj : m.representative[j] = r
  · simp only [hj, if_true, Option.map_some]
  · simp only [hj, h.injective.eq_iff, if_false, Option.map_none]

end Embeds

end Merge

end SceneCompiler
