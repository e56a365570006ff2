import Mathlib.Order.Lattice.Nat
import SceneCompiler.Proofs.Merge.Representative
import SceneCompiler.Proofs.Scene.Kinds

/-!
# The kinds of representatives

Objects that are merged have the same type and no animators.  What a representative refers to is
therefore of the kind that its own object asks for, and outlines can be ranked, merged or not, so
that each comes after what it is made from.
-/

namespace SceneCompiler

namespace Object

variable {ρ : Type}

theorem isExpressionAnimation_iff {o : Object ρ} :
    o.isExpressionAnimation = true ↔ o.typeName = "ExpressionAnimation" := by
  cases o with
  | composition base variant =>
    cases variant <;> simp [isExpressionAnimation, typeName, Variant.typeName]
  | path description source => simp [isExpressionAnimation, typeName]
  | canvas description geometry => simp [isExpressionAnimation, typeName]

theorem isOutline_iff {o : Object ρ} :
    o.isOutline = true ↔ o.typeName = "CompositionPath" ∨ o.typeName = "CanvasGeometry" := by
  cases o with
  | composition base variant => cases variant <;> simp [isOutline, typeName, Variant.typeName]
  | path description source => simp [isOutline, typeName]
  | canvas description geometry => simp [isOutline, typeName]

theorem typeName_of_admits_canvas {o : Object ρ} (h : Demand.canvasGeometry.admits o = true) :
    o.typeName = "CanvasGeometry" := by
  cases o with
  | composition base variant => cases variant <;> cases h
  | path description source => cases h
  | canvas description geometry => rfl

theorem exists_canvas {o : Object ρ} (h : o.typeName = "CanvasGeometry") :
    ∃ description geometry, o = .canvas description geometry := by
  cases o with
  | composition base variant => cases variant <;> simp [typeName, Variant.typeName] at h
  | path description source => simp [typeName] at h
  | canvas description geometry => exact ⟨description, geometry, rfl⟩

theorem isOutline_of_admits {o : Object ρ} {demand : Demand} (h : demand.admits o = true)
    (hdemand : demand = .canvasGeometry ∨ demand = .compositionPath) : o.isOutline = true := by
  cases o with
  | composition base variant =>
    rcases hdemand with rfl | rfl <;> cases variant <;>
      simp [Demand.admits, Demand.ofVariant] at h
  | path description source => rfl
  | canvas description geometry => rfl

theorem isExpressionAnimation_of_admits {o : Object ρ} {demand : Demand}
    (h : demand.admits o = true) (hobject : demand ≠ .compositionObject)
    (hanimation : demand ≠ .animation) : o.isExpressionAnimation = false := by
  cases o with
  | composition base variant =>
    cases variant <;> simp_all [Demand.admits, Demand.ofVariant, isExpressionAnimation]
  | path description source => rfl
  | canvas description geometry => rfl

theorem not_expression_of_isVisual {o : Object ρ} (h : o.isVisual = true) :
    o.isExpressionAnimation = false := by
  cases o with
  | composition base variant => cases variant <;> simp_all [isVisual, isExpressionAnimation]
  | path description source => rfl
  | canvas description geometry => rfl

theorem not_expression_of_isEasing {o : Object ρ} (h : o.isEasing = true) :
    o.isExpressionAnimation = false := by
  cases o with
  | composition base variant => cases variant <;> simp_all [isEasing, isExpressionAnimation]
  | path description source => rfl
  | canvas description geometry => rfl

theorem head?_of_atoms? {keep : Bool} {o : Object ρ} {fields : List Atom}
    (h : o.atoms? keep = some fields) : fields.head? = some (.text o.typeName) := by
  cases o with
  | composition base variant =>
    simp only [atoms?] at h
    split at h
    · cases h
    · obtain ⟨rest, _, rfl⟩ := Option.map_eq_some_iff.mp h
      rfl
  | path description source =>
    cases h
    rfl
  | canvas description geometry =>
    cases h
    rfl

theorem animators_of_atoms? {keep : Bool} {o : Object ρ} {fields : List Atom}
    (h : o.atoms? keep = some fields) : o.animators = [] := by
  cases o with
  | composition base variant =>
    simp only [atoms?] at h
    split at h
    · cases h
    · rename_i hnone
      simp only [Bool.or_eq_true, Bool.not_eq_true', not_or, Bool.not_eq_false] at hnone
      simpa [animators] using hnone.1
  | path description source => rfl
  | canvas description geometry => rfl

theorem atoms?_of_isVisual {keep : Bool} {o : Object ρ} (h : o.isVisual = true) :
    o.atoms? keep = none := by
  cases o with
  | composition base variant =>
    cases variant <;> simp_all [isVisual, atoms?, Variant.atoms?]
  | path description source => cases h
  | canvas description geometry => cases h

end Object

namespace Merge

variable {n : Nat} {m : Merge n} {keep : Bool} (hm : m.Lawful (m.graph.atoms keep))

include hm

theorem typeName_representative {i : Fin n} (hi : i ∈ m.graph.order) :
    (m.object m.representative[i]).typeName = (m.object i).typeName := by
  rcases hm.alike _ (hm.mem_order i hi) i hi (hm.idem i hi) with h | ⟨fields, hr, hi', _⟩
  · rw [h]
  · have hhead := (Object.head?_of_atoms? hr).symm.trans (Object.head?_of_atoms? hi')
    exact Atom.text.inj (Option.some.inj hhead)

theorem animators_of_merged {i j : Fin n} (hi : i ∈ m.graph.order) (hj : j ∈ m.graph.order)
    (h : m.representative[i] = m.representative[j]) (hne : i ≠ j) :
    (m.object i).animators = [] := by
  rcases hm.alike i hi j hj h with heq | ⟨fields, hfields, _⟩
  · exact absurd heq hne
  · exact Object.animators_of_atoms? hfields

theorem eq_of_animators {i j : Fin n} (hi : i ∈ m.graph.order) (hj : j ∈ m.graph.order)
    (h : m.representative[i] = m.representative[j]) (hanimators : (m.object i).animators ≠ []) :
    i = j := by
  by_contra hne
  exact hanimators (animators_of_merged hm hi hj h hne)

variable (hk : m.graph.Kinded)

include hk

theorem representative_root : m.representative[m.graph.root] = m.graph.root :=
  hm.representative_of_alone hm.ordered.root_mem (Object.atoms?_of_isVisual hk.root)

theorem root_mem_representatives : m.graph.root ∈ m.representatives :=
  mem_representatives.mpr ⟨hm.ordered.root_mem, representative_root hm hk⟩

omit hm in
theorem not_expression_root {j : Fin n} (h : (m.object j).isExpressionAnimation = true) :
    j ≠ m.graph.root := by
  rintro rfl
  exact absurd (h.symm.trans (Object.not_expression_of_isVisual hk.root)) (by simp)

omit hk in
theorem isExpressionAnimation_representative {i : Fin n} (hi : i ∈ m.graph.order) :
    (m.object m.representative[i]).isExpressionAnimation =
      (m.object i).isExpressionAnimation := by
  rw [Bool.eq_iff_iff, Object.isExpressionAnimation_iff, Object.isExpressionAnimation_iff,
    typeName_representative hm hi]

omit hk in
theorem isOutline_representative {i : Fin n} (hi : i ∈ m.graph.order) :
    (m.object m.representative[i]).isOutline = (m.object i).isOutline := by
  rw [Bool.eq_iff_iff, Object.isOutline_iff, Object.isOutline_iff, typeName_representative hm hi]

omit hk in
theorem part_mem_order {i : Fin n} (hi : i ∈ m.graph.order) {part : Demand × Fin n}
    (hpart : part ∈ (m.object i).parts) : part.2 ∈ m.graph.order := by
  refine hm.ordered.closed i hi ?_
  change part.2 ∈ (m.object i).references
  rw [Object.references_eq]
  exact List.mem_append_left _ (List.mem_map_of_mem hpart)

theorem mem_parameterTargets_of_expression {i : Fin n} (hi : i ∈ m.graph.order)
    {part : Demand × Fin n} (hpart : part ∈ (m.object i).parts)
    (hexpression : (m.object m.representative[part.2]).isExpressionAnimation = true) :
    part.2 ∈ (m.object i).parameterTargets := by
  rw [isExpressionAnimation_representative hm (part_mem_order hm hi hpart)] at hexpression
  rw [Object.mem_parameterTargets]
  by_cases hdemand : part.1 = .compositionObject
  · rw [← hdemand]
    exact hpart
  · have hanimation : part.1 ≠ .animation := fun h =>
      Object.animation_not_mem_parts (m.object i) part.2 (h ▸ hpart)
    have hfalse := Object.isExpressionAnimation_of_admits (hk.parts i hi part hpart) hdemand
      hanimation
    exact absurd (hexpression.symm.trans hfalse) (by simp)

theorem isOutline_of_mem_take {i : Fin n} (hi : i ∈ m.graph.order) {part : Demand × Fin n}
    (hpart : part ∈ (m.object i).parts.take (m.object i).arity) :
    (m.object m.representative[part.2]).isOutline = true := by
  have hmem := List.mem_of_mem_take hpart
  rw [isOutline_representative hm (part_mem_order hm hi hmem)]
  refine Object.isOutline_of_admits (hk.parts i hi part hmem) ?_
  rcases Object.outline_demand_of_mem_take hpart with h | h
  · exact .inl h
  · exact .inr h.1

noncomputable def leastRank (m : Merge n) (rank : Fin n → Nat) (r : Fin n) : Nat :=
  sInf {k | ∃ i ∈ m.graph.order, m.representative[i] = r ∧ rank i = k}

theorem exists_rank : ∃ rank : Fin n → Nat, ∀ r ∈ m.representatives,
    (m.object r).isOutline = true →
      ∀ j ∈ m.targets r, (m.object j).isOutline = true ∧ rank j < rank r := by
  obtain ⟨rank, hrank⟩ := hk.ranked
  refine ⟨m.leastRank rank, fun r hr houtline j hj => ?_⟩
  obtain ⟨hmem, hself⟩ := mem_representatives.mp hr
  have hnonempty : {k | ∃ i ∈ m.graph.order, m.representative[i] = r ∧ rank i = k}.Nonempty :=
    ⟨rank r, r, hmem, hself, rfl⟩
  obtain ⟨i, hi, hri, hleast⟩ := Nat.sInf_mem hnonempty
  have houtlineI : (m.object i).isOutline = true := by
    rw [← isOutline_representative hm hi, hri]
    exact houtline
  rw [← hri, hm.targets_eq hi] at hj
  obtain ⟨k, hk', rfl⟩ := List.mem_map.mp hj
  change k ∈ (m.object i).references at hk'
  rw [Object.references_of_isOutline houtlineI] at hk'
  obtain ⟨part, hpart, rfl⟩ := List.mem_map.mp hk'
  refine ⟨isOutline_of_mem_take hm hk hi hpart, ?_⟩
  calc m.leastRank rank m.representative[part.2] ≤ rank part.2 :=
        Nat.sInf_le ⟨part.2, part_mem_order hm hi (List.mem_of_mem_take hpart), rfl, rfl⟩
    _ < rank i := hrank i hi part hpart
    _ = m.leastRank rank r := hleast

end Merge

end SceneCompiler
