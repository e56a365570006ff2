import SceneCompiler.Proofs.Graph.Walk
import SceneCompiler.Proofs.Scene.Loading

/-!
# The kinds of objects in a loaded scene

In the graph of a loaded scene the root is a visual, every part is of the kind asked for, and no
object is needed to create itself.
-/

namespace SceneCompiler

/-- What a loader that links without issues leaves to rely on. -/
structure Graph.Kinded {n : Nat} (g : Graph n) : Prop where
  root : (g.object g.root).isVisual = true
  parts : ∀ i ∈ g.order, ∀ part ∈ (g.object i).parts, part.1.admits (g.object part.2) = true
  ranked : ∃ rank : Fin n → Nat, ∀ i ∈ g.order,
    ∀ part ∈ (g.object i).parts.take (g.object i).arity, rank part.2 < rank i

private theorem isVisual_of_admits {ρ : Type} {o : Object ρ}
    (h : Demand.visual.admits o = true) : o.isVisual = true := by
  cases o with
  | composition base variant =>
    cases variant <;> simp_all [Demand.admits, Demand.ofVariant, Object.isVisual]
  | path description source => cases h
  | canvas description geometry => cases h

namespace Scene

variable {scene : Scene} {d : Document} {place : String → Fin scene.size}

theorem Realizes.exists_record (h : scene.Realizes d place) (i : Fin scene.size) :
    ∃ id o, d.records.lookup id = some o ∧ place id = i ∧ scene.heap[i] = o.map place := by
  obtain ⟨id, o, ho, rfl⟩ := h.surjective i
  exact ⟨id, o, ho, rfl, h.object id o ho⟩

theorem Realizes.kinded (h : scene.Realizes d place)
    (hroot : Linking.Holds d.records (.visual, d.root)) (hlinked : Linking.Linked d.records) :
    (Graph.ofRoot scene.heap scene.root).Kinded := by
  have hkind (part : Demand × String) (hpart : Linking.Holds d.records part) :
      part.1.admits scene.heap[place part.2] = true := by
    obtain ⟨o, ho, hadmits⟩ := hpart
    rw [h.object _ o ho, Demand.admits_map]
    exact hadmits
  refine ⟨?_, fun i _ part hpart => ?_, fun i => i.val, fun i _ part hpart => ?_⟩
  · apply isVisual_of_admits
    change Demand.visual.admits scene.heap[scene.root] = true
    rw [h.root]
    exact hkind _ hroot
  · obtain ⟨id, o, ho, _, hobject⟩ := h.exists_record i
    change part ∈ scene.heap[i].parts at hpart
    rw [hobject, Object.parts_map] at hpart
    obtain ⟨original, horiginal, rfl⟩ := List.mem_map.mp hpart
    exact hkind _ (hlinked.mentions id o ho _ (List.mem_append_left _ horiginal))
  · obtain ⟨id, o, ho, rfl, hobject⟩ := h.exists_record i
    change part ∈ scene.heap[place id].parts.take scene.heap[place id].arity at hpart
    rw [hobject, Object.parts_map, Object.arity_map, ← List.map_take] at hpart
    obtain ⟨original, horiginal, rfl⟩ := List.mem_map.mp hpart
    exact h.lower id o ho _ (Object.mem_singles_of_mem_take horiginal)

theorem exists_document {json : Option Json} {path : String}
    (h : Scene.load json path = .ok scene) :
    ∃ d place, Document.read json = .ok d ∧ scene.Realizes d place ∧
      Linking.Holds d.records (.visual, d.root) ∧ Linking.Linked d.records := by
  simp only [load] at h
  cases hread : Document.read json with
  | error issues =>
    rw [hread] at h
    cases h
  | ok d =>
    rw [hread] at h
    rcases ofDocument_spec d with ⟨hroot, hlinked, scene', place, hscene, hplaces⟩ | ⟨_, _, _, herror⟩
    · simp only [Except.bind, hscene] at h
      cases h
      exact ⟨d, place, rfl, hplaces, hroot, hlinked⟩
    · simp only [Except.bind, herror] at h
      cases h

theorem load_kinded {json : Option Json} {path : String} {scene : Scene}
    (h : Scene.load json path = .ok scene) : (Graph.ofRoot scene.heap scene.root).Kinded := by
  obtain ⟨_, _, _, hplaces, hroot, hlinked⟩ := exists_document h
  exact hplaces.kinded hroot hlinked

def documentOf (objects : List (String × Json)) : Option Json :=
  some (.object [("width", .number 100), ("height", .number 100), ("durationMs", .number 1000),
    ("root", .string "root"), ("objects", .object objects)])

theorem exists_of_toOption {ε α : Type} {x : Except ε α} {P : α → Prop} [DecidablePred P]
    (h : (x.toOption.any fun a => decide (P a)) = true) : ∃ a, x = .ok a ∧ P a := by
  cases x with
  | error e => cases h
  | ok a => exact ⟨a, rfl, by simpa [Except.toOption] using h⟩

theorem exists_of_load {json : Option Json} {path : String} {P : Scene → Prop} [DecidablePred P]
    (h : ((Scene.load json path).toOption.any fun scene => decide (P scene)) = true) :
    ∃ scene, Scene.load json path = .ok scene ∧ P scene :=
  exists_of_toOption h

end Scene

end SceneCompiler
