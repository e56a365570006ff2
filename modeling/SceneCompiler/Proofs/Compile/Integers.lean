import SceneCompiler.Proofs.Compile.Construction
import SceneCompiler.Proofs.Constructor.Answers
import SceneCompiler.Proofs.Document.Acceptance
import SceneCompiler.Proofs.Factory.Integers
import SceneCompiler.Proofs.Merge.Alike

/-!
# The integers in generated code

The integers in the code of a scene are literals of their types exactly if the durations and steps of the
scene are in range.  Neither loading nor compiling asks for that.
-/

namespace SceneCompiler

/-! ## Steps and durations of a loaded scene -/

theorem Object.Measured.map {ρ σ : Type} {o : Object ρ} (h : o.Measured) (φ : ρ → σ) :
    (o.map φ).Measured := by
  have hsteps : (o.map φ).steps = o.steps := by
    cases o with
    | composition base variant => cases variant <;> rfl
    | _ => rfl
  have hdurations : (o.map φ).durations = o.durations := by
    cases o with
    | composition base variant => cases variant <;> rfl
    | _ => rfl
  exact ⟨hsteps ▸ h.steps, hdurations ▸ h.durations⟩

theorem Members.Defaulted.isInteger {ms : Members} {key : String} {standard v : Number}
    (h : Members.Defaulted ms key standard .integer v) (hstandard : standard.isInteger = true) :
    v.isInteger = true := by
  rcases h with ⟨j, _, _, hv⟩ | ⟨_, rfl⟩
  · exact hv
  · exact hstandard

theorem DescribesFrames.measured {α : Type} {F : Format (KeyFrame String α)} {ms : Members}
    {f : Frames String α} (h : DescribesFrames F ms f) : Number.le 0 f.duration = true := by
  obtain ⟨j, _, _, hduration⟩ := h.duration
  exact hduration

theorem DescribesObject.measured {ms : Members} {o : Object String} (h : DescribesObject ms o) :
    o.Measured := by
  obtain ⟨_, h⟩ := h
  have hframes {α : Type} {F : Format (KeyFrame String α)} {f : Frames String α}
      (hf : DescribesFrames F ms f) : ∀ duration ∈ [f.duration], Number.le 0 duration = true := by
    simpa using hf.measured
  cases o with
  | composition base variant =>
    cases variant with
    | stepEasing e =>
      have he : DescribesStepEasing ms e := h.2
      refine ⟨?_, by simp [Object.durations, Variant.durations]⟩
      simp [Object.steps, Variant.steps, he.finalStep.isInteger (by decide +kernel),
        he.initialStep.isInteger (by decide +kernel), he.stepCount.isInteger (by decide +kernel)]
    | colorAnimation q f => exact ⟨by simp [Object.steps, Variant.steps], hframes h.2.2⟩
    | scalarAnimation q f => exact ⟨by simp [Object.steps, Variant.steps], hframes h.2.2⟩
    | vector2Animation q f => exact ⟨by simp [Object.steps, Variant.steps], hframes h.2.2⟩
    | vector3Animation q f => exact ⟨by simp [Object.steps, Variant.steps], hframes h.2.2⟩
    | pathAnimation q f => exact ⟨by simp [Object.steps, Variant.steps], hframes h.2.2⟩
    | _ =>
      exact ⟨by simp [Object.steps, Variant.steps], by simp [Object.durations, Variant.durations]⟩
  | _ => exact ⟨by simp [Object.steps], by simp [Object.durations]⟩

namespace Scene

variable {json : Option Json} {path : String} {scene : Scene}

theorem measured (hload : Scene.load json path = .ok scene) (i : Fin scene.size) :
    scene.heap[i].Measured := by
  obtain ⟨d, place, hread, hrealizes, _⟩ := exists_document hload
  obtain ⟨ms, entries, _, hd⟩ := Document.read_eq_ok_iff.mp hread
  obtain ⟨id, o, ho, _, hobject⟩ := hrealizes.exists_record i
  obtain ⟨entry, _, _, fields, _, hfields⟩ := exists_of_forall₂ hd.records (mem_of_lookup ho)
  rw [hobject]
  exact hfields.measured.map _

theorem le_durationMs (hload : Scene.load json path = .ok scene) :
    Number.le 0 scene.durationMs = true := by
  obtain ⟨d, place, hread, hrealizes, _⟩ := exists_document hload
  obtain ⟨ms, entries, _, hd⟩ := Document.read_eq_ok_iff.mp hread
  obtain ⟨j, _, _, hduration⟩ := hd.durationMs
  rw [hrealizes.durationMs]
  exact hduration

end Scene

/-! ## Merged objects -/

namespace Number

variable {v w : Number}

theorem isStep_of_alike (hv : v.isInteger = true) (hw : w.isInteger = true) (h : v.Alike w) :
    v.isStep = w.isStep := by
  rcases h.2 with hequals | ⟨hinfinite, _⟩
  · rw [Bool.eq_iff_iff, ← admits_step_iff hv, ← admits_step_iff hw,
      CSharp.integer_eq_of_equals hequals]
  · cases v with
    | finite => cases hinfinite
    | infinite => cases hv
    | nan => cases hv

theorem eq_infinite (h : Number.le 0 v = true) (hinfinite : v.isFinite = false) :
    v = .infinite false := by
  rw [zero_eq] at h
  cases v with
  | finite => cases hinfinite
  | infinite negative =>
    cases negative with
    | false => rfl
    | true => cases h
  | nan => cases h

theorem le_longestDuration_of_alike (hv : Number.le 0 v = true) (hw : Number.le 0 w = true)
    (h : v.Alike w) : v.le longestDuration = w.le longestDuration := by
  rcases h.2 with hequals | ⟨hinfinite, hinfinite'⟩
  · rw [Bool.eq_iff_iff, ← admits_ticks_iff hv, ← admits_ticks_iff hw,
      CSharp.integer_ticks_of_equals hequals]
  · rw [eq_infinite hv hinfinite, eq_infinite hw hinfinite']

end Number

theorem Object.inRange_of_alike {ρ : Type} {keep : Bool} {a b : Object ρ} (ha : a.Measured)
    (hb : b.Measured) (h : a.Alike keep b) : a.inRange = b.inRange := by
  have hframes {α : Type} {R : α → α → Prop} {f g : Frames ρ α}
      (hf : ∀ duration ∈ [f.duration], Number.le 0 duration = true)
      (hg : ∀ duration ∈ [g.duration], Number.le 0 duration = true) (halike : f.Alike R g) :
      (true && [f.duration].all (·.le Number.longestDuration)) =
        (true && [g.duration].all (·.le Number.longestDuration)) := by
    simp only [List.all_cons, List.all_nil, Number.le_longestDuration_of_alike
      (hf _ List.mem_cons_self) (hg _ List.mem_cons_self) halike.1]
  cases h with
  | composition _ _ _ _ _ hvariant =>
    cases hvariant with
    | stepEasing hs =>
      obtain ⟨hfinal, hinitial, _, _, hcount⟩ := hs
      have hsteps := ha.steps
      have hsteps' := hb.steps
      simp only [Object.steps, Variant.steps, List.forall_mem_cons] at hsteps hsteps'
      simp only [inRange, Object.steps, Variant.steps, List.all_cons,
        Number.isStep_of_alike hsteps.1 hsteps'.1 hfinal,
        Number.isStep_of_alike hsteps.2.1 hsteps'.2.1 hinitial,
        Number.isStep_of_alike hsteps.2.2.1 hsteps'.2.2.1 hcount]
      rfl
    | colorAnimation _ hf => exact hframes ha.durations hb.durations hf
    | scalarAnimation _ hf => exact hframes ha.durations hb.durations hf
    | vector2Animation _ hf => exact hframes ha.durations hb.durations hf
    | vector3Animation _ hf => exact hframes ha.durations hb.durations hf
    | pathAnimation _ hf => exact hframes ha.durations hb.durations hf
    | _ => rfl
  | _ => rfl

theorem Object.inRange_of_isExpressionAnimation {ρ : Type} {o : Object ρ}
    (h : o.isExpressionAnimation = true) : o.inRange = true := by
  cases o with
  | composition base variant =>
    cases variant with
    | expressionAnimation => rfl
    | _ => cases h
  | _ => cases h

/-! ## Programs -/

variable {n : Nat}

def Program.integers (program : Program n) (durationMs : Number) : List IntegerLiteral :=
  .ticks durationMs :: program.factories.flatMap fun entry => entry.2.integers

namespace Graph.Writes

variable {g : Graph n} {o : Options} {c : Compilation n} {program : Program n}
  (h : g.Writes o c program)

include h

theorem inRange_of_not_withFactory {r : Fin n}
    (hr : r ∈ (g.merged o.setComments).representatives) (hnot : r ∉ program.plan.withFactory) :
    (g.object r).inRange = true := by
  by_contra hrange
  refine hnot (h.follows.mem_withFactory.mpr ⟨hr, ?_, ?_⟩)
  · cases htransient : (g.merged o.setComments).transient r with
    | false => rfl
    | true =>
      have hexpression : (g.object r).isExpressionAnimation = true :=
        (Merge.transient_spec htransient).1
      exact absurd (Object.inRange_of_isExpressionAnimation hexpression) hrange
  · refine Merge.not_inlines _ fun description source hobject => hrange ?_
    change g.object r = .path description source at hobject
    rw [hobject]
    rfl

theorem factories_fit_iff (hmeasured : ∀ i, (g.object i).Measured)
    (hscene : (IntegerLiteral.ticks o.durationMs).Fits) :
    (∀ entry ∈ program.factories, ∀ literal ∈ entry.2.integers, literal.Fits) ↔
      ∀ i ∈ g.order, (g.object i).inRange = true := by
  have hm := h.lawful
  have hobject (r : Fin n) : program.plan.merge.object r = g.object r := by
    rw [h.follows.merge]
    rfl
  have hentries := h.map_fst_factories
  rw [← h.plan] at hentries
  have hfactories : (∀ entry ∈ program.factories, ∀ literal ∈ entry.2.integers, literal.Fits) ↔
      ∀ r ∈ program.plan.withFactory, (g.object r).inRange = true := by
    rw [← hentries, List.forall_mem_map]
    refine forall₂_congr fun entry hentry => ?_
    obtain ⟨made, hrun⟩ := h.run
    obtain ⟨_, hsame, _⟩ := Plan.factories_spec hrun entry hentry
    have hmeasured := hmeasured entry.1
    rw [← hobject] at hmeasured ⊢
    rw [← Factory.integers_map Reply.toRequest, hsame]
    exact program.plan.fits_factory_iff hmeasured hscene
  rw [hfactories]
  constructor
  · intro hall i hi
    have hr := hm.representative_mem hi
    have hrange : (g.object (g.merged o.setComments).representative[i]).inRange = true := by
      by_cases hmem : (g.merged o.setComments).representative[i] ∈ program.plan.withFactory
      · exact hall _ hmem
      · exact h.inRange_of_not_withFactory hr hmem
    rcases hm.alike i hi _ (hm.mem_order i hi) (hm.idem i hi).symm with heq | ⟨fields, hfields, hfields', _⟩
    · rw [heq]
      exact hrange
    · rw [Object.inRange_of_alike (hmeasured i) (hmeasured _)
        (Object.alike_of_atoms? hfields hfields')]
      exact hrange
  · intro hall r hr
    exact hall r (Merge.mem_representatives.mp (h.follows.mem_withFactory.mp hr).1).1

end Graph.Writes

/-- The integers in the code of a scene are literals of their types exactly if the duration of the scene,
those of all animations and the steps of all easing functions that it reaches are in range. -/
theorem integers_fit_iff {json : Option Json} {path : String} {scene : Scene}
    (hload : Scene.load json path = .ok scene) {o : Options} {c : Compilation scene.size}
    (hcompile : compile scene.heap scene.root o = .ok c) (hduration : o.durationMs = scene.durationMs) :
    ∃ program, c.plan.program ⟨o.durationMs, o.setComments⟩ = .ok program ∧ c.code = program.code o ∧
      ((∀ literal ∈ program.integers o.durationMs, literal.Fits) ↔
        scene.durationMs.le Number.longestDuration = true ∧
          ∀ i ∈ (Graph.ofRoot scene.heap scene.root).order, scene.heap[i].inRange = true) := by
  obtain ⟨program, h⟩ := Scene.exists_writes hload hcompile
  refine ⟨program, h.answered, h.code, ?_⟩
  rw [Program.integers, List.forall_mem_cons, List.forall_mem_flatMap, hduration,
    ← Number.admits_ticks_iff (Scene.le_durationMs hload)]
  refine and_congr_right fun hscene => ?_
  exact h.factories_fit_iff (Scene.measured hload) (hduration ▸ hscene)

/-- An animation that lasts one bit longer than the longest duration, with the largest step. -/
def overlongDocument : Option Json :=
  Scene.documentOf [
    ("root", .object [("type", .string "ContainerVisual"),
      ("animators", .array [
        .object [("property", .string "Opacity"), ("animation", .string "k")]])]),
    ("k", .object [("type", .string "ScalarKeyFrameAnimation"),
      ("duration", .number (Number.ofRatio false 7378697629483821 8)),
      ("keyFrames", .array [
        .object [("progress", .number 0), ("value", .number 1), ("easing", .string "s")]])]),
    ("s", .object [("type", .string "StepEasingFunction"), ("finalStep", .number 2147483647)])]

theorem integers_fit_overlong :
    ∃ scene, Scene.load overlongDocument "scene.json" = .ok scene ∧
      ∃ c, compile scene.heap scene.root
          { className := "Scene", width := 100, height := 100, durationMs := 1000 } = .ok c ∧
        ∃ program, c.plan.program ⟨1000, false⟩ = .ok program ∧
          ¬∀ literal ∈ program.integers 1000, literal.Fits := by
  refine Scene.exists_compiles
    (P := fun scene => 1000 = scene.durationMs ∧
      ¬∀ i ∈ (Graph.ofRoot scene.heap scene.root).order, scene.heap[i].inRange = true)
    (by decide +kernel) fun scene hload c hcompile hscene => ?_
  obtain ⟨program, hprogram, _, hiff⟩ := integers_fit_iff hload hcompile hscene.1
  exact ⟨program, hprogram, fun hall => hscene.2 (hiff.mp hall).2⟩

end SceneCompiler
