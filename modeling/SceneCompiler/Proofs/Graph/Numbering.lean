import Mathlib.Algebra.Order.BigOperators.Group.List
import Mathlib.Algebra.Order.Group.Nat
import Mathlib.Logic.Relation
import SceneCompiler.Proofs.Graph.Walk

/-!
# The numbering of a graph

The graph of a root has the objects that the root reaches, each once, and numbers them as the recursive
depth-first search first visits them.  Every reference in it has a number, and the references are
counted alike from both of their ends.
-/

namespace SceneCompiler.Graph

variable {n : Nat}

def Refers (references : Fin n → List (Fin n)) (a b : Fin n) : Prop :=
  b ∈ references a

section Reach

variable {references : Fin n → List (Fin n)} {after : List (Fin n)}

theorem Explores.mem_iff_reaches {root : Fin n} (h : Explores references [root] [] after)
    (i : Fin n) :
    i ∈ after ↔ Relation.ReflTransGen (Refers references) root i := by
  constructor
  · intro hi
    obtain ⟨p, hp, hreach⟩ := h.reaches hi List.not_mem_nil
    rwa [← List.mem_singleton.mp hp]
  · intro hreach
    induction hreach with
    | refl => exact h.pending_subset (List.mem_singleton_self root)
    | tail _ hrefers ih => exact h.closed ih List.not_mem_nil hrefers

end Reach

/-! ## Counting references -/

theorem filterMap_eq_replicate {α : Type} (f : Fin n → Fin n) (a : α) (r : Fin n)
    (ks : List (Fin n)) :
    (ks.filterMap fun k => if f k = r then some a else none) =
      List.replicate ((ks.map f).count r) a := by
  induction ks with
  | nil => rfl
  | cons k ks ih =>
    by_cases hk : f k = r
    · simp [hk, ih, List.replicate_succ]
    · simp [hk, ih]

theorem count_flatMap_replicate {is : List (Fin n)} (hnodup : is.Nodup) {i : Fin n} (hi : i ∈ is)
    (c : Fin n → Nat) : (is.flatMap fun k => List.replicate (c k) k).count i = c i := by
  rw [List.count_flatMap, ← List.sum_map_erase _ hi]
  have hothers : ((is.erase i).map (List.count i ∘ fun k => List.replicate (c k) k)).sum = 0 := by
    refine List.sum_eq_zero fun x hx => ?_
    obtain ⟨k, hk, rfl⟩ := List.mem_map.mp hx
    have hne : k ≠ i := (hnodup.mem_erase_iff.mp hk).1
    simp [List.count_replicate, hne]
  rw [hothers]
  simp

variable {g : Graph n}

theorem count_inReferences (hnodup : g.order.Nodup) {i : Fin n} (hi : i ∈ g.order) (j : Fin n) :
    (g.inReferences j).count i = (g.outReferences i).count j := by
  have hentries : g.inReferences j =
      g.order.flatMap fun k => List.replicate ((g.outReferences k).count j) k := by
    unfold inReferences
    congr 1
    funext k
    rw [filterMap_eq_replicate (fun r => r) k j, List.map_id_fun']
    rfl
  rw [hentries]
  exact count_flatMap_replicate hnodup hi _

/-! ## Numbers -/

theorem getElem?_order_iff (hnodup : g.order.Nodup) (i : Fin n) (k : Nat) :
    g.order[k]? = some i ↔ i ∈ g.order ∧ g.index i = k := by
  constructor
  · intro hk
    obtain ⟨hlt, rfl⟩ := List.getElem?_eq_some_iff.mp hk
    exact ⟨List.getElem_mem hlt, hnodup.idxOf_getElem k hlt⟩
  · rintro ⟨hi, rfl⟩
    have hlt : g.order.idxOf i < g.order.length := List.idxOf_lt_length_iff.mpr hi
    rw [index, List.getElem?_eq_getElem hlt, List.getElem_idxOf hlt]

theorem mapM_find {is : List (Fin n)} (h : is ⊆ g.order) :
    is.mapM g.find = .ok (is.map g.index) := by
  induction is with
  | nil => rfl
  | cons i is ih =>
    obtain ⟨hi, his⟩ := List.cons_subset.mp h
    have hfind : g.find i = .ok (g.index i) := if_pos (List.contains_iff_mem.mpr hi)
    rw [List.mapM_cons, hfind, ih his]
    rfl

theorem count_map_index {is : List (Fin n)} (h : is ⊆ g.order) (j : Fin n) :
    (is.map g.index).count (g.index j) = is.count j := by
  induction is with
  | nil => rfl
  | cons i is ih =>
    obtain ⟨hi, his⟩ := List.cons_subset.mp h
    rw [List.map_cons, List.count_cons, List.count_cons, ih his]
    by_cases heq : i = j
    · simp [heq]
    · have hne : g.index i ≠ g.index j := fun hindex => heq (index_inj hi hindex)
      simp [heq, hne]

theorem inReferences_subset (j : Fin n) : g.inReferences j ⊆ g.order := by
  intro i hi
  obtain ⟨k, hk, hik⟩ := List.mem_flatMap.mp hi
  obtain ⟨r, _, hr⟩ := List.mem_filterMap.mp hik
  split at hr
  · exact Option.some.inj hr ▸ hk
  · cases hr

/--
The order of a root's graph is the one in which the recursive search first visits objects.  It has the
objects that the root reaches, each once, and an object's number is its place in it.  Every reference is
found, and `i` refers to `j` as often as `j` is referred to by `i`.
-/
theorem ofRoot_numbers (heap : Heap n) (root : Fin n) :
    (∀ order, Explores (fun i => heap[i].references) [root] [] order ↔
        order = (ofRoot heap root).order) ∧
      (ofRoot heap root).order.Nodup ∧
      (∀ i, i ∈ (ofRoot heap root).order ↔
        Relation.ReflTransGen (Refers fun i => heap[i].references) root i) ∧
      (∀ i k, (ofRoot heap root).order[k]? = some i ↔
        i ∈ (ofRoot heap root).order ∧ (ofRoot heap root).index i = k) ∧
      (∀ i ∈ (ofRoot heap root).order, heap[i].references.mapM (ofRoot heap root).find =
        .ok (((ofRoot heap root).outReferences i).map (ofRoot heap root).index)) ∧
      ∀ i ∈ (ofRoot heap root).order, ∀ j ∈ (ofRoot heap root).order,
        (((ofRoot heap root).outReferences i).map (ofRoot heap root).index).count
            ((ofRoot heap root).index j) =
          (((ofRoot heap root).inReferences j).map (ofRoot heap root).index).count
            ((ofRoot heap root).index i) := by
  have hexplores := depthFirst_explores (fun i => heap[i].references) root
  have hordered := ofRoot_ordered heap root
  refine ⟨fun order => ⟨fun h => h.unique hexplores, fun h => h ▸ hexplores⟩, hordered.nodup,
    hexplores.mem_iff_reaches, getElem?_order_iff hordered.nodup,
    fun i hi => mapM_find (hordered.closed i hi), fun i hi j _ => ?_⟩
  rw [count_map_index (hordered.closed i hi), count_map_index (inReferences_subset j),
    count_inReferences hordered.nodup hi]

-- The root refers to an object twice and the object back to it; nothing refers to the second one.
example : depthFirst (fun i : Fin 4 => #v[[2, 3, 2], [3], [3, 0], []][i]) 0 = [0, 2, 3] := by
  decide

end SceneCompiler.Graph
