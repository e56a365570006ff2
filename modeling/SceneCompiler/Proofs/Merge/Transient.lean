import Mathlib.Algebra.Order.BigOperators.Group.List
import Mathlib.Algebra.Order.Group.Nat
import SceneCompiler.Proofs.Factory.Requests
import SceneCompiler.Proofs.Graph.Numbering
import SceneCompiler.Proofs.Merge.Kinds

/-!
# Transient animations

A transient animation is bound exactly once.  Where no part of an object is transient, that binding
is the only reference to the animation, and the object with the binding comes before it.
-/

namespace SceneCompiler.Merge

variable {n : Nat} (m : Merge n)

def boundTo : List (Fin n) :=
  m.bound.map fun i => m.representative[i]

def transient (r : Fin n) : Bool :=
  m.isTransient m.boundTo r

def owners : List (Fin n) :=
  m.representatives.filter fun r => !(m.object r).isExpressionAnimation

def bindingsOf (r : Fin n) : List (Fin n) :=
  (animatorReferences (m.object r).animators).map fun i => m.representative[i]

def isAtHand (e j : Fin n) : Bool :=
  m.transient e && ((m.object j).started.map Animator.animation).contains e

def PartsRetained : Prop :=
  ∀ r ∈ m.representatives, ∀ part ∈ (m.object r).parts,
    m.transient m.representative[part.2] = false

theorem boundTo_eq : m.boundTo = m.owners.flatMap m.bindingsOf := by
  simp only [boundTo, bound, owners, List.map_flatMap]
  rfl

theorem targets_eq_append (r : Fin n) :
    m.targets r =
      ((m.object r).parts.map fun part => m.representative[part.2]) ++
        (animatorReferences (m.object r).started).map fun i => m.representative[i] := by
  change ((m.object r).references).map _ = _
  rw [Object.references_eq, List.map_append, List.map_map]
  rfl

theorem take_targets (r : Fin n) :
    (m.targets r).take (m.object r).arity =
      ((m.object r).parts.take (m.object r).arity).map fun part => m.representative[part.2] := by
  have harity : (m.object r).arity ≤
      ((m.object r).parts.map fun part => m.representative[part.2]).length := by
    rw [List.length_map]
    exact Object.arity_le _
  rw [targets_eq_append, List.take_append_of_le_length harity, List.map_take]

theorem drop_targets (r : Fin n) :
    (m.targets r).drop (m.object r).arity =
      (((m.object r).parts.drop (m.object r).arity).map fun part => m.representative[part.2]) ++
        (animatorReferences (m.object r).started).map fun i => m.representative[i] := by
  have harity : (m.object r).arity ≤
      ((m.object r).parts.map fun part => m.representative[part.2]).length := by
    rw [List.length_map]
    exact Object.arity_le _
  rw [targets_eq_append, List.drop_append_of_le_length harity, List.map_drop]

section Bindings

variable {m}

theorem mem_owners {r : Fin n} :
    r ∈ m.owners ↔ r ∈ m.representatives ∧ (m.object r).isExpressionAnimation = false := by
  simp [owners]

theorem bindings_eq (h : ∀ i ∈ m.bound, i ∈ m.graph.order) : m.bindings = .ok m.boundTo := by
  unfold bindings boundTo
  generalize m.bound = is at h
  induction is with
  | nil => rfl
  | cons i is ih =>
    have hfind : m.graph.find i = .ok (m.graph.index i) := by
      simp [Graph.find, Graph.contains, h i List.mem_cons_self]
    rw [List.mapM_cons, ih fun j hj => h j (List.mem_cons_of_mem _ hj), hfind]
    rfl

theorem bindings_error (h : ∃ i ∈ m.bound, i ∉ m.graph.order) :
    ∃ i, m.bindings = .error (.outsideGraph (m.object i).typeName) := by
  unfold bindings
  generalize m.bound = is at h
  induction is with
  | nil => simp at h
  | cons i is ih =>
    rw [List.mapM_cons]
    by_cases hi : i ∈ m.graph.order
    · have hfind : m.graph.find i = .ok (m.graph.index i) := by
        simp [Graph.find, Graph.contains, hi]
      obtain ⟨j, hj⟩ := ih (by simpa [hi] using h)
      refine ⟨j, ?_⟩
      rw [hfind, hj]
      rfl
    · have hfind : m.graph.find i = .error (.outsideGraph (m.object i).typeName) := by
        simp [Graph.find, Graph.contains, hi, object]
      refine ⟨i, ?_⟩
      rw [hfind]
      rfl

theorem transient_spec {e : Fin n} (h : m.transient e = true) :
    (m.object e).isExpressionAnimation = true ∧ m.groupSize e = 1 ∧ m.boundTo.count e = 1 := by
  simpa [transient, isTransient, and_assoc] using h

theorem eq_of_transient {e i : Fin n} (h : m.transient e = true) (he : e ∈ m.representatives)
    (hi : i ∈ m.graph.order) (hrep : m.representative[i] = e) : i = e := by
  obtain ⟨hmem, hself⟩ := mem_representatives.mp he
  have hsize := (transient_spec h).2.1
  rw [groupSize, List.countP_eq_length_filter] at hsize
  obtain ⟨x, hx⟩ := List.length_eq_one_iff.mp hsize
  have hmemi : i ∈ m.graph.order.filter fun i => m.representative[i] == e := by
    simpa [hi] using hrep
  have hmeme : e ∈ m.graph.order.filter fun i => m.representative[i] == e := by
    simpa [hmem] using hself
  rw [hx, List.mem_singleton] at hmemi hmeme
  rw [hmemi, hmeme]

theorem count_boundTo (e : Fin n) :
    m.boundTo.count e = (m.owners.map fun r => (m.bindingsOf r).count e).sum := by
  rw [boundTo_eq, List.count_flatMap]
  rfl

theorem count_bindingsOf {e w : Fin n} (h : m.transient e = true) (hw : w ∈ m.owners)
    (he : e ∈ m.bindingsOf w) : (m.bindingsOf w).count e = 1 := by
  have hsum := (count_boundTo e).symm.trans (transient_spec h).2.2
  have hle := List.le_sum_of_mem
    (List.mem_map_of_mem (f := fun r => (m.bindingsOf r).count e) hw)
  have hpos := List.count_pos_iff.mpr he
  omega

theorem owner_unique (hnodup : m.owners.Nodup) {e w v : Fin n} (h : m.transient e = true)
    (hw : w ∈ m.owners) (hv : v ∈ m.owners) (hew : e ∈ m.bindingsOf w)
    (hev : e ∈ m.bindingsOf v) : v = w := by
  by_contra hne
  have hsum := (count_boundTo e).symm.trans (transient_spec h).2.2
  rw [← List.sum_map_erase _ hw, count_bindingsOf h hw hew] at hsum
  have hmem : v ∈ m.owners.erase w := (hnodup.mem_erase_iff).mpr ⟨hne, hv⟩
  have hle := List.le_sum_of_mem
    (List.mem_map_of_mem (f := fun r => (m.bindingsOf r).count e) hmem)
  have hpos := List.count_pos_iff.mpr hev
  omega

theorem mem_owners_of_started {r e : Fin n} (hr : r ∈ m.representatives)
    (he : e ∈ m.representatives) (hstarted : e ∈ animatorReferences (m.object r).started) :
    r ∈ m.owners ∧ e ∈ m.bindingsOf r := by
  have hne : (m.object r).started ≠ [] := by
    intro hnil
    rw [hnil] at hstarted
    cases hstarted
  obtain ⟨hanimators, _, hexpression⟩ := Object.animators_of_started hne
  rw [hanimators] at hstarted
  exact ⟨mem_owners.mpr ⟨hr, hexpression⟩,
    List.mem_map.mpr ⟨e, hstarted, (mem_representatives.mp he).2⟩⟩

theorem count_map_started_le {r e : Fin n} (h : m.transient e = true) (hr : r ∈ m.representatives) :
    ((animatorReferences (m.object r).started).map fun i => m.representative[i]).count e ≤ 1 := by
  by_cases hstarted : (m.object r).started = []
  · rw [hstarted]
    exact Nat.zero_le 1
  · obtain ⟨hanimators, _, hexpression⟩ := Object.animators_of_started hstarted
    rw [hanimators]
    by_cases hbound : e ∈ m.bindingsOf r
    · exact Nat.le_of_eq (count_bindingsOf h (mem_owners.mpr ⟨hr, hexpression⟩) hbound)
    · exact Nat.le_of_lt (Nat.lt_one_iff.mpr (List.count_eq_zero.mpr hbound))

theorem count_started_le {r e : Fin n} (h : m.transient e = true) (hr : r ∈ m.representatives)
    (he : e ∈ m.representatives) :
    (animatorReferences (m.object r).started).count e ≤ 1 := by
  have hle := List.count_le_count_map (f := fun i => m.representative[i]) (x := e)
    (l := animatorReferences (m.object r).started)
  rw [(mem_representatives.mp he).2] at hle
  exact hle.trans (count_map_started_le h hr)

end Bindings

section InReferences

variable {m}

theorem inReferences_eq (r : Fin n) :
    m.inReferences r =
      m.representatives.flatMap fun i => List.replicate ((m.targets i).count r) i := by
  unfold inReferences targets
  congr 1
  funext i
  exact Graph.filterMap_eq_replicate _ i r _

theorem length_inReferences (r : Fin n) :
    (m.inReferences r).length = (m.representatives.map fun i => (m.targets i).count r).sum := by
  simp [inReferences_eq, List.length_flatMap]

theorem count_inReferences (hnodup : m.representatives.Nodup) {i : Fin n}
    (hi : i ∈ m.representatives) (r : Fin n) :
    (m.inReferences r).count i = (m.targets i).count r := by
  rw [inReferences_eq]
  exact Graph.count_flatMap_replicate hnodup hi _

end InReferences

structure Binder (m : Merge n) (e w : Fin n) : Prop where
  mem : w ∈ m.representatives
  inReferences : m.inReferences e = [w]
  index_lt : m.graph.index w < m.graph.index e
  started : (m.object w).started = (m.object w).animators
  not_expression : (m.object w).isExpressionAnimation = false
  mem_started : e ∈ animatorReferences (m.object w).started
  count_started : (animatorReferences (m.object w).started).count e = 1

theorem Binder.eq_of_mem_targets {m : Merge n} {e w v : Fin n} (h : m.Binder e w) (hv : v ∈ m.representatives)
    (he : e ∈ m.targets v) : v = w := by
  have hmem : v ∈ m.inReferences e := mem_inReferences.mpr ⟨hv, he⟩
  rw [h.inReferences] at hmem
  exact List.mem_singleton.mp hmem

private theorem sum_le_sum_filter {f g : Fin n → Nat} {p : Fin n → Bool} (is : List (Fin n))
    (h : ∀ i ∈ is, f i ≤ if p i then g i else 0) :
    (is.map f).sum ≤ ((is.filter p).map g).sum := by
  induction is with
  | nil => exact Nat.le_refl _
  | cons i is ih =>
    have hi := h i List.mem_cons_self
    have his := ih fun j hj => h j (List.mem_cons_of_mem _ hj)
    cases hp : p i with
    | true =>
      simp only [hp, if_true] at hi
      simp only [List.map_cons, List.sum_cons, List.filter_cons, hp, if_true]
      omega
    | false =>
      simp only [hp, Bool.false_eq_true, if_false] at hi
      simp only [List.map_cons, List.sum_cons, List.filter_cons, hp, Bool.false_eq_true,
        if_false]
      omega

section Lawful

variable {m} {keep : Bool} (hm : m.Lawful (m.graph.atoms keep)) (hk : m.graph.Kinded)

include hm

theorem nodup_owners : m.owners.Nodup :=
  hm.nodup_representatives.filter _

include hk

theorem isOutline_of_mem_take_targets {i j : Fin n} (hi : i ∈ m.graph.order)
    (hj : j ∈ (m.targets i).take (m.object i).arity) : (m.object j).isOutline = true := by
  rw [take_targets] at hj
  obtain ⟨part, hpart, rfl⟩ := List.mem_map.mp hj
  exact isOutline_of_mem_take hm hk hi hpart

omit hm hk in
theorem count_targets_le (hparts : m.PartsRetained) {e i : Fin n} (h : m.transient e = true)
    (hi : i ∈ m.representatives) :
    (m.targets i).count e ≤
      if !(m.object i).isExpressionAnimation then (m.bindingsOf i).count e else 0 := by
  have hnone : e ∉ (m.object i).parts.map fun part => m.representative[part.2] := by
    intro hmem
    obtain ⟨part, hpart, rfl⟩ := List.mem_map.mp hmem
    rw [hparts i hi part hpart] at h
    cases h
  rw [targets_eq_append, List.count_append, List.count_eq_zero.mpr hnone, Object.started_eq,
    Nat.zero_add]
  cases heasing : (m.object i).isEasing <;> cases hexpression : (m.object i).isExpressionAnimation
  · exact Nat.le_refl _
  · exact Nat.le_refl _
  · exact Nat.zero_le _
  · exact Nat.le_refl _

omit hm hk in
theorem retained_of_mem_targets (hparts : m.PartsRetained) {e k : Fin n}
    (he : e ∈ m.representatives) (h : m.transient e = true) (hk : k ∈ m.targets e) :
    m.transient k = false := by
  rw [targets_eq_append, Object.started_eq, (transient_spec h).1, Bool.or_true, if_pos rfl] at hk
  simp only [animatorReferences, List.map_nil, List.append_nil] at hk
  obtain ⟨part, hpart, rfl⟩ := List.mem_map.mp hk
  exact hparts e he part hpart

theorem exists_binder (hparts : m.PartsRetained) {e : Fin n} (he : e ∈ m.representatives)
    (h : m.transient e = true) : ∃ w, m.Binder e w := by
  have hroot : e ≠ m.graph.root := by
    rintro rfl
    have hexpression := (transient_spec h).1
    exact absurd (hexpression.symm.trans (Object.not_expression_of_isVisual hk.root)) (by simp)
  obtain ⟨w, hw, hew, hlt⟩ := hm.exists_earlier_referencer he hroot
  have hlength : (m.inReferences e).length ≤ 1 := by
    rw [length_inReferences, ← (transient_spec h).2.2, count_boundTo]
    exact sum_le_sum_filter _ fun i hi => count_targets_le hparts h hi
  have hmem : w ∈ m.inReferences e := mem_inReferences.mpr ⟨hw, hew⟩
  have hsingle : m.inReferences e = [w] := by
    obtain ⟨x, hx⟩ := List.length_eq_one_iff.mp
      (Nat.le_antisymm hlength (List.length_pos_of_mem hmem))
    rw [hx, List.mem_singleton] at hmem
    rw [hx, hmem]
  have hstarted : e ∈ animatorReferences (m.object w).started := by
    rw [targets_eq_append, List.mem_append] at hew
    rcases hew with hmapped | hanimation
    · obtain ⟨part, hpart, rfl⟩ := List.mem_map.mp hmapped
      rw [hparts w hw part hpart] at h
      cases h
    · obtain ⟨a, ha, hrep⟩ := List.mem_map.mp hanimation
      have harefs : a ∈ (m.object w).references := by
        rw [Object.references_eq]
        exact List.mem_append_right _ ha
      have haorder := hm.ordered.closed w (mem_representatives.mp hw).1 harefs
      rwa [← eq_of_transient h he haorder hrep]
  have hne : (m.object w).started ≠ [] := by
    intro hnil
    rw [hnil] at hstarted
    cases hstarted
  obtain ⟨hanimators, _, hexpression⟩ := Object.animators_of_started hne
  exact ⟨w, hw, hsingle, hlt, hanimators, hexpression, hstarted,
    Nat.le_antisymm (count_started_le h hw he) (List.count_pos_iff.mpr hstarted)⟩

theorem starts_of_isAtHand (hparts : m.PartsRetained) {e j i : Fin n} (he : e ∈ m.representatives)
    (hj : j ∈ m.representatives) (hi : i ∈ m.representatives) (h : m.isAtHand e j = true)
    (hei : e ∈ m.targets i) : j = i := by
  simp only [isAtHand, Bool.and_eq_true, List.contains_iff_mem] at h
  obtain ⟨w, hw⟩ := exists_binder hm hk hparts he h.1
  have hej : e ∈ m.targets j := by
    rw [targets_eq_append]
    exact List.mem_append_right _ (List.mem_map.mpr
      ⟨e, animation_mem_animatorReferences h.2, (mem_representatives.mp he).2⟩)
  rw [hw.eq_of_mem_targets hj hej, hw.eq_of_mem_targets hi hei]

theorem index_lt_of_isAtHand (hparts : m.PartsRetained) {e j : Fin n} (he : e ∈ m.representatives)
    (hj : j ∈ m.representatives) (h : m.isAtHand e j = true) :
    m.graph.index j < m.graph.index e := by
  have htransient : m.transient e = true := by
    simp only [isAtHand, Bool.and_eq_true] at h
    exact h.1
  obtain ⟨w, hw⟩ := exists_binder hm hk hparts he htransient
  have hew : e ∈ m.targets w := (mem_inReferences.mp (hw.inReferences ▸ List.mem_singleton_self w)).2
  rw [starts_of_isAtHand hm hk hparts he hj hw.mem h hew]
  exact hw.index_lt

end Lawful

end SceneCompiler.Merge
