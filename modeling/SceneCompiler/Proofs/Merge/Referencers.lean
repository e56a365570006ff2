import SceneCompiler.Proofs.Merge.Transient

/-!
# Referencers of representatives

The object that a walk comes from when it first meets a representative may itself be merged with an
earlier one, even with one whose own references are still being walked.  That one refers to the
representative too, so every representative but the root is referred to by an earlier representative.
-/

namespace SceneCompiler

variable {n : Nat}

theorem Merge.count_inReferences_eq_countP {m : Merge n} (hnodup : m.representatives.Nodup)
    {a : Fin n} (ha : a ∈ m.representatives) (b : Fin n) :
    (m.inReferences b).count a =
      (m.graph.outReferences a).countP fun k => m.representative[k] == b := by
  rw [count_inReferences hnodup ha, targets, List.count, List.countP_map]
  rfl

/-- Every representative but the root has a representative with a smaller index among its
referencers, and a representative is among those of another as often as it refers to its group. -/
theorem representatives_referred_earlier (heap : Heap n) (root : Fin n) (keep : Bool) :
    let g := Graph.ofRoot heap root
    let m := Merge.ofGraph g (g.atoms keep)
    (∀ b ∈ m.representatives, b ≠ root →
        ∃ a ∈ m.inReferences b, a ∈ m.representatives ∧ g.index a < g.index b) ∧
      ∀ a ∈ m.representatives, ∀ b ∈ m.representatives,
        (m.inReferences b).count a =
          (g.outReferences a).countP fun k => m.representative[k] == b := by
  intro g m
  have hm : m.Lawful (g.atoms keep) :=
    Merge.ofGraph_lawful g (g.atoms keep) (Graph.ofRoot_ordered heap root)
  refine ⟨fun b hb hroot => ?_, fun a ha b _ => ?_⟩
  · obtain ⟨a, ha, htargets, hlt⟩ := hm.exists_earlier_referencer hb hroot
    exact ⟨a, Merge.mem_inReferences.mpr ⟨ha, htargets⟩, ha, hlt⟩
  · exact Merge.count_inReferences_eq_countP hm.nodup_representatives ha b

/-- An animation refers to a visual and to an easing function.  The visual is animated by a second one
that refers back to it and to another easing function, which is met first. -/
def mergedReferencerHeap : Heap 6 :=
  #v[.composition { onObject := [.plain "Opacity" 1] } (.containerVisual {}),
    .composition {} (.expressionAnimation { references := [("host", 2), ("ease", 5)] } "a"),
    .composition { onObject := [.plain "Scale" 3] } (.containerVisual {}),
    .composition {} (.expressionAnimation { references := [("host", 2), ("ease", 4)] } "a"),
    .composition {} .linearEasing,
    .composition {} .linearEasing]

theorem representatives_referred_mergedReferencer :
    let g := Graph.ofRoot mergedReferencerHeap 0
    let m := Merge.ofGraph g (g.atoms true)
    (4 ∈ m.representatives ∧ m.representative[(3 : Fin 6)] = 1 ∧ m.inReferences 4 = [1]) ∧
      (∃ a ∈ m.inReferences 4, a ∈ m.representatives ∧ g.index a < g.index 4) ∧
      (m.inReferences 4).count 1 =
        (g.outReferences 1).countP fun k => m.representative[k] == 4 := by
  intro g m
  obtain ⟨hearlier, hcount⟩ := representatives_referred_earlier mergedReferencerHeap 0 true
  have hfour : 4 ∈ m.representatives := by decide +kernel
  exact ⟨⟨hfour, by decide +kernel, by decide +kernel⟩, hearlier 4 hfour (by decide),
    hcount 1 (by decide +kernel) 4 hfour⟩

end SceneCompiler
