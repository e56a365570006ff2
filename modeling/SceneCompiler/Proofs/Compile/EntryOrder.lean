import SceneCompiler.Proofs.Compile.Construction
import SceneCompiler.Proofs.Constructor.FirstEntries

/-!
# The order of first entries

While the constructor of a compiled scene without cycles runs, factories are entered for the first
time in construction order.
-/

namespace SceneCompiler

variable {n : Nat}

theorem Plan.shown_eq_enter {p : Plan n} {m : Merge n} {mark : Mark n} {i : Fin n} :
    p.shown m mark = some (.enter i) ↔ mark = .enter i ∧ i ∈ p.withFactory := by
  cases mark with
  | enter j =>
    simp only [shown, Mark.enter.injEq]
    constructor
    · intro h
      split at h
      · cases h
        exact ⟨rfl, by assumption⟩
      · cases h
    · rintro ⟨rfl, hj⟩
      rw [if_pos hj]
  | create j =>
    simp only [shown]
    split <;> simp
  | read j k =>
    simp only [shown]
    split <;> simp

namespace Graph.Writes

variable {g : Graph n} {o : Options} {c : Compilation n} {program : Program n}
  (h : g.Writes o c program)

include h

theorem exists_visit_of_enter {left right : List (Event n)} {j : Fin n}
    (hsplit : program.trace = left ++ .enter j :: right) :
    ∃ before after, (g.merged o.setComments).visit n g.root = before ++ .enter j :: after ∧
      ∀ i ∈ program.plan.withFactory, .enter i ∈ left ↔ .enter i ∈ before := by
  have hquiet := h.quiet_trace
  rw [hsplit, Event.quiet, List.filter_append, List.filter_cons_of_pos rfl] at hquiet
  obtain ⟨first, rest, hvisit, hfirst, hrest⟩ := List.filterMap_eq_append_iff.mp hquiet.symm
  obtain ⟨skipped, mark, after, rfl, hskipped, hmark, _⟩ := List.filterMap_eq_cons_iff.mp hrest
  obtain ⟨rfl, _⟩ := Plan.shown_eq_enter.mp hmark
  refine ⟨first ++ skipped, after, by simp [hvisit], fun i hi => ?_⟩
  have hshown : .enter i ∈ left ↔ .enter i ∈ first := by
    have hleft : .enter i ∈ left ↔ .enter i ∈ left.filter fun event => !event.isPerform := by
      simp [Event.isPerform]
    rw [hleft, ← hfirst, List.mem_filterMap]
    simp [Plan.shown_eq_enter, hi]
  have hnot : .enter i ∉ skipped := by
    intro hmem
    have hnone := hskipped _ hmem
    rw [Plan.shown_eq_enter.mpr ⟨rfl, hi⟩] at hnone
    cases hnone
  simp [hshown, hnot]

theorem mem_withFactory_of_enter {i : Fin n} (hi : .enter i ∈ program.trace) :
    i ∈ program.plan.withFactory := by
  have hquiet : .enter i ∈ Event.quiet program.trace := List.mem_filter.mpr ⟨hi, rfl⟩
  rw [h.quiet_trace] at hquiet
  obtain ⟨mark, _, hshown⟩ := List.mem_filterMap.mp hquiet
  exact (Plan.shown_eq_enter.mp hshown).2

end Graph.Writes

/-- While the constructor of a compiled scene runs whose graph has no cycle, every factory is entered,
and for the first time after the first entries of the earlier ones only. -/
theorem first_entries_ascend {json : Option Json} {path : String} {scene : Scene}
    (hload : Scene.load json path = .ok scene) {o : Options} {c : Compilation scene.size}
    (hcompile : compile scene.heap scene.root o = .ok c)
    (hacyclic : (Graph.ofRoot scene.heap scene.root).Acyclic) :
    ∃ program, c.plan.program ⟨o.durationMs, o.setComments⟩ = .ok program ∧
      c.code = program.code o ∧ .stuck ∉ program.trace ∧
      (∀ i, .enter i ∈ program.trace ↔ i ∈ c.plan.withFactory) ∧
      ∀ left j right, program.trace = left ++ .enter j :: right → .enter j ∉ left →
        ∀ i, .enter i ∈ left →
          (Graph.ofRoot scene.heap scene.root).index i <
            (Graph.ofRoot scene.heap scene.root).index j := by
  obtain ⟨program, h⟩ := Scene.exists_writes hload hcompile
  have hm := h.lawful
  have hfactory : ∀ i, .enter i ∈ program.trace ↔ i ∈ program.plan.withFactory := fun i =>
    ⟨h.mem_withFactory_of_enter, h.enter_mem_trace⟩
  refine ⟨program, h.answered, h.code, h.stuck_not_mem_trace, h.plan ▸ hfactory, ?_⟩
  intro left j right hsplit hnew i hi
  obtain ⟨before, after, hvisit, hbefore⟩ := h.exists_visit_of_enter hsplit
  have hjfactory := (hfactory j).mp (by simp [hsplit])
  have hifactory := (hfactory i).mp (by simp [hsplit, hi])
  have hlength := h.ordered.length_le
  exact Merge.index_lt_of_first hm hacyclic (Merge.root_mem_representatives hm h.kinded)
    (Graph.depthFirst_explores _ _) hlength hvisit ((hbefore j hjfactory).not.mp hnew)
    ((hbefore i hifactory).mp hi)

/-- A shape that the root shares with another shape, brushes of one color, a path that is written
inline, and a transient animation of the root that refers to the shared shape. -/
def sharedShapeDocument : Option Json :=
  Scene.documentOf [
    ("root", .object [("type", .string "ShapeVisual"),
      ("shapes", .array [.string "s", .string "t"]),
      ("animators", .array [
        .object [("property", .string "Opacity"), ("animation", .string "e")]])]),
    ("e", .object [("type", .string "ExpressionAnimation"), ("expression", .string "a"),
      ("referenceParameters", .object [("shape", .string "t")])]),
    ("s", .object [("type", .string "CompositionContainerShape"),
      ("shapes", .array [.string "u", .string "t"])]),
    ("u", .object [("type", .string "CompositionSpriteShape"), ("fillBrush", .string "b"),
      ("geometry", .string "g")]),
    ("t", .object [("type", .string "CompositionSpriteShape"), ("fillBrush", .string "d")]),
    ("g", .object [("type", .string "CompositionPathGeometry"), ("path", .string "p")]),
    ("p", .object [("type", .string "CompositionPath"), ("source", .string "q")]),
    ("q", .object [("type", .string "CanvasGeometry"), ("geometryType", .string "Ellipse"),
      ("x", .number 0), ("y", .number 0), ("radiusX", .number 1), ("radiusY", .number 2)]),
    ("b", .object [("type", .string "CompositionColorBrush"), ("color", .string "#FF000000")]),
    ("d", .object [("type", .string "CompositionColorBrush"), ("color", .string "#FF000000")])]

def sharedShapeDepths : List Nat :=
  [0, 1, 1, 3, 2, 3, 5, 4, 3, 2]

theorem first_entries_sharedShape :
    ∃ scene, Scene.load sharedShapeDocument "scene.json" = .ok scene ∧
      ∃ c, compile scene.heap scene.root
          { className := "Scene", width := 100, height := 100, durationMs := 1000 } = .ok c ∧
        (Graph.ofRoot scene.heap scene.root).Acyclic ∧
        ((∃ i ∈ (Graph.ofRoot scene.heap scene.root).order,
            ((Graph.ofRoot scene.heap scene.root).merged false).representative[i] ≠ i) ∧
          (∃ i ∈ ((Graph.ofRoot scene.heap scene.root).merged false).representatives,
            ((Graph.ofRoot scene.heap scene.root).merged false).inlines i = true) ∧
          (∃ i ∈ ((Graph.ofRoot scene.heap scene.root).merged false).representatives,
            ((Graph.ofRoot scene.heap scene.root).merged false).transient i = true) ∧
          ¬((Graph.ofRoot scene.heap scene.root).merged false).SingleCaller) ∧
        ∃ program, c.plan.program ⟨1000, false⟩ = .ok program ∧
          ∀ (left : List (Event scene.size)) j right,
            program.trace = left ++ .enter j :: right → .enter j ∉ left → ∀ i, .enter i ∈ left →
              (Graph.ofRoot scene.heap scene.root).index i <
                (Graph.ofRoot scene.heap scene.root).index j := by
  refine Scene.exists_compiles
    (P := fun scene => (∀ i, ∀ j ∈ (Graph.ofRoot scene.heap scene.root).outReferences i,
        sharedShapeDepths.getD i.val 0 < sharedShapeDepths.getD j.val 0) ∧
      ((∃ i ∈ (Graph.ofRoot scene.heap scene.root).order,
          ((Graph.ofRoot scene.heap scene.root).merged false).representative[i] ≠ i) ∧
        (∃ i ∈ ((Graph.ofRoot scene.heap scene.root).merged false).representatives,
          ((Graph.ofRoot scene.heap scene.root).merged false).inlines i = true) ∧
        (∃ i ∈ ((Graph.ofRoot scene.heap scene.root).merged false).representatives,
          ((Graph.ofRoot scene.heap scene.root).merged false).transient i = true) ∧
        ¬((Graph.ofRoot scene.heap scene.root).merged false).SingleCaller))
    (by decide +kernel) fun scene hload c hcompile hdepths => ?_
  have hacyclic := Graph.acyclic_of_lt hdepths.1
  obtain ⟨program, hprogram, _, _, _, hascend⟩ := first_entries_ascend hload hcompile hacyclic
  exact ⟨hacyclic, hdepths.2, program, hprogram, hascend⟩

end SceneCompiler
