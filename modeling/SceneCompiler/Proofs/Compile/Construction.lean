import SceneCompiler.Proofs.Compile.Faults
import SceneCompiler.Proofs.Constructor.Entries
import SceneCompiler.Proofs.Constructor.Simulation

/-!
# Single construction

A compilation writes a program whose run is a visit of the root of the merged graph.  Every factory is
run, and each is run only once exactly if no object of the merged graph is referred to by two earlier
ones.
-/

namespace SceneCompiler

variable {n : Nat}

structure Graph.Writes (g : Graph n) (o : Options) (c : Compilation n) (program : Program n) :
    Prop where
  plan : program.plan = c.plan
  answered : c.plan.program ⟨o.durationMs, o.setComments⟩ = .ok program
  code : c.code = program.code o
  follows : program.plan.Follows (g.merged o.setComments) o.dialect.newOperator
  run : ∃ made, (program.plan.factories ⟨o.durationMs, o.setComments⟩).run program.plan.calls =
    .ok (program.factories, made)
  partsRetained : (g.merged o.setComments).PartsRetained
  lawful : (g.merged o.setComments).Lawful ((g.merged o.setComments).graph.atoms o.setComments)
  kinded : g.Kinded

theorem Graph.exists_writes {g : Graph n} (hg : g.Ordered) (hk : g.Kinded) {o : Options}
    {c : Compilation n} (h : g.compile o = .ok c) : ∃ program, g.Writes o c program := by
  obtain ⟨heasing, hparameter, _⟩ := (compile_ok_iff hg hk o).mp ⟨c, h⟩
  have hm := Merge.merged_lawful hg o.setComments
  have hparts := (Merge.partsRetained_iff hm hk).mpr hparameter
  obtain ⟨p, hp, hcompile⟩ := compile_of_follows hg hk o heasing
  rw [hcompile] at h
  cases hrun : (p.factories ⟨o.durationMs, o.setComments⟩).run p.calls with
  | error fault =>
    rw [hrun] at h
    cases h
  | ok result =>
    rw [hrun] at h
    cases h
    refine ⟨⟨p, result.1⟩, rfl, ?_, rfl, hp, ⟨result.2, hrun⟩, hparts, hm, hk⟩
    rw [Plan.program, hrun]
    rfl

theorem Scene.exists_writes {json : Option Json} {path : String} {scene : Scene}
    (hload : Scene.load json path = .ok scene) {o : Options} {c : Compilation scene.size}
    (hcompile : compile scene.heap scene.root o = .ok c) :
    ∃ program, (Graph.ofRoot scene.heap scene.root).Writes o c program :=
  Graph.exists_writes (Graph.ofRoot_ordered _ _) (load_kinded hload) hcompile

theorem Merge.eq_of_inReferences {m : Merge n} {keep : Bool} (hm : m.Lawful (m.graph.atoms keep))
    (hk : m.graph.Kinded) (hparts : m.PartsRetained) {r i j : Fin n} (hr : r ∈ m.representatives)
    (h : ¬(r ∈ m.representatives ∧ m.transient r = false ∧ m.inlines r = false))
    (hi : i ∈ m.inReferences r) (hj : j ∈ m.inReferences r) : i = j := by
  cases htransient : m.transient r with
  | true =>
    obtain ⟨w, hw⟩ := exists_binder hm hk hparts hr htransient
    rw [hw.inReferences, List.mem_singleton] at hi hj
    rw [hi, hj]
  | false =>
    have hinlines : m.inlines r = true := by
      by_contra hnot
      exact h ⟨hr, htransient, by simpa using hnot⟩
    obtain ⟨x, hx⟩ := List.length_eq_one_iff.mp
      (Nat.le_antisymm (length_inReferences_of_inlines hinlines) (List.length_pos_of_mem hi))
    rw [hx, List.mem_singleton] at hi hj
    rw [hi, hj]

namespace Graph.Writes

variable {g : Graph n} {o : Options} {c : Compilation n} {program : Program n}
  (h : g.Writes o c program)

include h

theorem ordered : g.Ordered :=
  h.lawful.ordered

theorem map_fst_factories : program.factories.map Prod.fst = c.plan.withFactory := by
  obtain ⟨made, hrun⟩ := h.run
  have hm := h.lawful
  rw [← h.plan]
  exact (Plan.factories_answered (h.follows.emission_inj hm _) (List.Subset.refl _)
    (h.follows.recalls_nil hm _) hrun).1

theorem map_toRequest_references {entry : Fin n × Factory (Reply n)}
    (hentry : entry ∈ program.factories) :
    entry.2.references.map Reply.toRequest =
      (program.plan.factory ⟨o.durationMs, o.setComments⟩ entry.1).references := by
  obtain ⟨made, hrun⟩ := h.run
  have hm := h.lawful
  obtain ⟨_, hanswered⟩ := Plan.factories_answered (h.follows.emission_inj hm _)
    (List.Subset.refl _) (h.follows.recalls_nil hm _) hrun
  obtain ⟨_, _, _, hentry⟩ := hanswered entry hentry
  rw [Factory.references, List.map_append, hentry.creation, hentry.statements,
    Plan.map_toRequest_replies, Plan.map_toRequest_replies]
  rfl

theorem plan_root : program.plan.root = g.root := by
  have hmerge := h.follows.merge
  simp only [Plan.root, hmerge]
  exact Merge.representative_root h.lawful h.kinded

theorem root_mem_withFactory : g.root ∈ program.plan.withFactory := by
  have hm := h.lawful
  have hvisual := h.kinded.root
  refine h.follows.mem_withFactory.mpr ⟨Merge.root_mem_representatives hm h.kinded, ?_, ?_⟩
  · cases htransient : (g.merged o.setComments).transient g.root with
    | false => rfl
    | true => exact absurd rfl (Merge.not_expression_root (m := g.merged o.setComments) h.kinded
        (Merge.transient_spec htransient).1)
  · refine Merge.not_inlines _ fun description source hobject => ?_
    change g.object g.root = _ at hobject
    rw [hobject] at hvisual
    cases hvisual

theorem quiet_trace :
    Event.quiet program.trace =
      ((g.merged o.setComments).visit n g.root).filterMap
        (program.plan.shown (g.merged o.setComments)) := by
  obtain ⟨made, hrun⟩ := h.run
  have hlength := h.ordered.length_le
  rw [Program.trace, plan_root h]
  exact h.follows.quiet_run h.lawful h.kinded h.partsRetained hrun n
    (root_mem_withFactory h) (Nat.le_add_right_of_le hlength) (Nat.le_add_right_of_le hlength)

theorem stuck_not_mem_trace : Event.stuck ∉ program.trace := by
  intro hstuck
  have hquiet : Event.stuck ∈ Event.quiet program.trace := List.mem_filter.mpr ⟨hstuck, rfl⟩
  rw [quiet_trace h] at hquiet
  obtain ⟨mark, _, hshown⟩ := List.mem_filterMap.mp hquiet
  cases mark <;> simp [Plan.shown] at hshown

theorem count_enter {i : Fin n} (hi : i ∈ program.plan.withFactory) :
    program.trace.count (.enter i) = (g.merged o.setComments).entries n g.root i := by
  have hfilter : (Event.quiet program.trace).count (.enter i) = program.trace.count (.enter i) :=
    List.count_filter rfl
  rw [← hfilter, quiet_trace h, Merge.entries, List.count, List.countP_filterMap, List.count]
  congr 1
  funext mark
  cases mark with
  | enter j =>
    by_cases hj : j = i
    · subst hj
      simp [Plan.shown, hi]
    · simp only [Plan.shown]
      split <;> simp [hj]
  | create j =>
    simp only [Plan.shown]
    split <;> simp
  | read j k =>
    simp only [Plan.shown]
    split <;> simp

theorem enter_mem_trace {i : Fin n} (hi : i ∈ program.plan.withFactory) :
    .enter i ∈ program.trace := by
  have hm := h.lawful
  apply List.count_pos_iff.mp
  rw [count_enter h hi]
  exact Merge.one_le_entries hm (Merge.root_mem_representatives hm h.kinded)
    (h.follows.mem_withFactory.mp hi).1

end Graph.Writes

/-- Every factory of a compiled scene is run when the constructor is, and each is run only once
exactly if no object of the merged graph is referred to by two earlier ones. -/
theorem factories_run_once_iff {json : Option Json} {path : String} {scene : Scene}
    (hload : Scene.load json path = .ok scene) {o : Options} {c : Compilation scene.size}
    (hcompile : compile scene.heap scene.root o = .ok c) :
    ∃ program, c.plan.program ⟨o.durationMs, o.setComments⟩ = .ok program ∧
      c.code = program.code o ∧ .stuck ∉ program.trace ∧
      (∀ i ∈ c.plan.withFactory, 1 ≤ program.trace.count (.enter i)) ∧
      ((∀ i ∈ c.plan.withFactory, program.trace.count (.enter i) = 1) ↔
        ((Graph.ofRoot scene.heap scene.root).merged o.setComments).SingleCaller) := by
  obtain ⟨program, h⟩ := Scene.exists_writes hload hcompile
  have hm := h.lawful
  have hroot := Merge.root_mem_representatives hm h.kinded
  have hcount : ∀ i ∈ c.plan.withFactory, program.trace.count (.enter i) =
      ((Graph.ofRoot scene.heap scene.root).merged o.setComments).entries scene.size
        scene.root i := fun i hi => h.count_enter (h.plan ▸ hi)
  have hmem : ∀ i ∈ c.plan.withFactory,
      i ∈ ((Graph.ofRoot scene.heap scene.root).merged o.setComments).representatives :=
    fun i hi => (h.follows.mem_withFactory.mp (h.plan ▸ hi)).1
  refine ⟨program, h.answered, h.code, h.stuck_not_mem_trace, fun i hi => ?_, ?_, ?_⟩
  · rw [hcount i hi]
    exact Merge.one_le_entries hm hroot (hmem i hi)
  · intro honce r hr i hi j hj hir hjr
    by_contra hne
    have htwo := Merge.two_le_entries hm hroot hi hj hir hjr hne
    by_cases hfactory : r ∈ c.plan.withFactory
    · have hone := (hcount r hfactory).symm.trans (honce r hfactory)
      change 2 ≤ ((Graph.ofRoot scene.heap scene.root).merged o.setComments).entries scene.size
        scene.root r at htwo
      omega
    · rw [← h.plan, h.follows.mem_withFactory] at hfactory
      exact hne (Merge.eq_of_inReferences hm h.kinded h.partsRetained hr hfactory hi hj)
  · intro hsingle i hi
    rw [hcount i hi]
    exact Merge.entries_eq_one hm hroot hsingle (hmem i hi)

/-- A visual that is a child of the root and of the child before it. -/
def sharedChildDocument : Option Json :=
  Scene.documentOf [
    ("root", .object [("type", .string "ContainerVisual"),
      ("children", .array [.string "a", .string "b"])]),
    ("a", .object [("type", .string "ContainerVisual"), ("children", .array [.string "b"])]),
    ("b", .object [("type", .string "ContainerVisual")])]

theorem factories_run_twice_sharedChild :
    ∃ scene, Scene.load sharedChildDocument "scene.json" = .ok scene ∧
      ∃ c, compile scene.heap scene.root
          { className := "Scene", width := 100, height := 100, durationMs := 1000 } = .ok c ∧
        ∃ program, c.plan.program ⟨1000, false⟩ = .ok program ∧
          ¬∀ i ∈ c.plan.withFactory, program.trace.count (.enter i) = 1 := by
  refine Scene.exists_compiles (by decide +kernel) fun scene hload c hcompile
    (hshared : ¬((Graph.ofRoot scene.heap scene.root).merged false).SingleCaller) => ?_
  obtain ⟨program, hprogram, _, _, _, hiff⟩ := factories_run_once_iff hload hcompile
  exact ⟨program, hprogram, fun honce => hshared (hiff.mp honce)⟩

end SceneCompiler
