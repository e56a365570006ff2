import SceneCompiler.Proofs.Compile.Construction
import SceneCompiler.Proofs.Constructor.Answers
import SceneCompiler.Proofs.Constructor.Resets

/-!
# Starts of the reusable animation

While the constructor of a compiled scene runs, every start of the reusable expression animation
follows a reset by the same factory.  If no other factory resets it in between, it is started with
the expression and the parameters of the animation that is bound, and with its target or else the
one that was there before.  Those that do reset it come later in construction order.
-/

namespace SceneCompiler

namespace Graph.Writes

variable {n : Nat} {g : Graph n} {o : Options} {c : Compilation n} {program : Program n}
  (h : g.Writes o c program)

include h

theorem orderly_trace : program.Orderly 0 program.trace := by
  obtain ⟨made, hrun⟩ := h.run
  rw [Program.trace, h.plan_root]
  exact (h.follows.orderly_run h.lawful h.kinded h.partsRetained hrun n
    h.root_mem_withFactory).mono (Nat.zero_le _)

theorem exists_prepared {left right : List (Event n)} {r : Fin n} {position : Nat} {target : Target}
    {property : String} (hsplit : program.trace = left ++ .perform r position
      (.startAnimation target property (.holder .reusable)) :: right) :
    ∃ a base q expression before reset between, program.bound? r position = some a ∧
      c.plan.merge.object a = .composition base (.expressionAnimation q expression) ∧
      left = before ++ .perform r reset .clearParameters :: between ∧
      (∀ i position, .perform i position .clearParameters ∈ between →
        c.plan.Resets i ∧ c.plan.merge.graph.index r < c.plan.merge.graph.index i) ∧
      (Event.NoReset between →
        Reusable.after left = (Reusable.after before).rebuild c.plan.merge q expression) := by
  obtain ⟨a, base, q, expression, before, reset, between, hbound, hobject, rfl, hlater, hstate⟩ :=
    h.orderly_trace.settles left r position target property right hsplit
  rw [h.plan] at hobject hlater hstate
  refine ⟨a, base, q, expression, before, reset, between, hbound, hobject, rfl, hlater,
    fun hnoReset => ?_⟩
  rw [Reusable.after, List.foldl_append, List.foldl_cons]
  exact hstate hnoReset _

theorem merge_object (i : Fin n) : program.plan.merge.object i = g.object i := by
  rw [h.follows.merge]
  rfl

theorem site_not_retained {a : Fin n} (htransient : (g.merged o.setComments).transient
    (g.merged o.setComments).representative[a] = true) :
    (program.plan.site a).retained = false := by
  rw [Plan.site, h.follows.retained, h.follows.merge, htransient]
  rfl

theorem exists_start {front back : List (Fin n)} {a : Fin n} {base : Base (Fin n)}
    {q : Parameters (Fin n)} {expression : String}
    (hstarted : animatorReferences (g.object g.root).started = front ++ a :: back)
    (hobject : g.object a = .composition base (.expressionAnimation q expression))
    (htransient : (g.merged o.setComments).transient
      (g.merged o.setComments).representative[a] = true) :
    ∃ left position target property right before,
      program.trace = left ++ .perform g.root position
        (.startAnimation target property (.holder .reusable)) :: right ∧
      program.bound? g.root position = some a ∧ program.plan.Binds g.root front before ∧
      ∀ statement ∈ before, ∃ k performed, .perform g.root k performed ∈ left ∧
        performed.map Reply.toRequest = statement := by
  have hm := h.lawful
  have hroot := h.root_mem_withFactory
  obtain ⟨made, hrun⟩ := h.run
  have hbinds := program.plan.binds_factory ⟨o.durationMs, o.setComments⟩ g.root
  have hself : program.plan.merge.representative[g.root] = g.root := by
    rw [h.follows.merge]
    exact (Merge.mem_representatives.mp (h.follows.mem_withFactory.mp hroot).1).2
  have hlist : animatorReferences (program.plan.merge.object g.root).started =
      front ++ a :: back := by
    rw [h.merge_object, hstarted]
  rw [hlist] at hbinds
  obtain ⟨before, building, target, property, after, hbefore, hsplit, hcount⟩ :=
    hbinds.exists_start hself ((h.merge_object a).trans hobject) (h.site_not_retained htransient)
  obtain ⟨depth, hdepth⟩ := Nat.exists_eq_add_one.mpr g.root.pos
  obtain ⟨left, performed, right, htrace, hperformed, hearlier⟩ :=
    h.follows.exists_perform hm h.kinded h.partsRetained hrun hroot depth hsplit
  cases Statement.map_eq_startReusable hperformed
  refine ⟨left, (before ++ building).length, target, property, right, before, ?_, ?_, hbefore,
    fun statement hmem => hearlier statement (List.mem_append_left _ hmem)⟩
  · rw [Program.trace, h.plan_root, ← htrace]
    exact congrArg (fun depth => program.run depth g.root) hdepth
  · refine (h.follows.bound?_eq hm h.kinded h.partsRetained hrun hroot _).trans ?_
    rw [hlist, hsplit, List.take_left, hcount]
    simp

end Graph.Writes

private def expression? {ρ : Type} : Object ρ → Option (Parameters ρ × String)
  | .composition _ (.expressionAnimation q expression) => some (q, expression)
  | _ => none

private theorem exists_of_expression? {ρ : Type} {object : Object ρ} {q : Parameters ρ}
    {expression : String} (h : expression? object = some (q, expression)) :
    ∃ base, object = .composition base (.expressionAnimation q expression) := by
  unfold expression? at h
  split at h
  · cases h
    exact ⟨_, rfl⟩
  · cases h

/-- What a factory starts, the reusable animation has been rebuilt for, if nothing has reset it since
the last reset by that factory. -/
theorem reusable_rebuilt_at_start {json : Option Json} {path : String} {scene : Scene}
    (hload : Scene.load json path = .ok scene) {o : Options} {c : Compilation scene.size}
    (hcompile : compile scene.heap scene.root o = .ok c) :
    ∃ program, c.plan.program ⟨o.durationMs, o.setComments⟩ = .ok program ∧
      c.code = program.code o ∧ .stuck ∉ program.trace ∧
      ∀ left r position target property right,
        program.trace = left ++ .perform r position
          (.startAnimation target property (.holder .reusable)) :: right →
        ∃ a base q expression before reset between, program.bound? r position = some a ∧
          c.plan.merge.object a = .composition base (.expressionAnimation q expression) ∧
          left = before ++ .perform r reset .clearParameters :: between ∧
          (∀ position, .perform r position .clearParameters ∉ between) ∧
          (Event.NoReset between →
            (Reusable.after left).expression = some expression ∧
            (Reusable.after left).parameters =
              (fun name => (q.object? name).map fun j => c.plan.merge.representative[j]) ∧
            (Reusable.after left).target =
              (Text.present? q.target).or (Reusable.after before).target) := by
  obtain ⟨program, h⟩ := Scene.exists_writes hload hcompile
  refine ⟨program, h.answered, h.code, h.stuck_not_mem_trace, ?_⟩
  intro left r position target property right hsplit
  obtain ⟨a, base, q, expression, before, reset, between, hbound, hobject, rfl, hlater, hafter⟩ :=
    h.exists_prepared hsplit
  refine ⟨a, base, q, expression, before, reset, between, hbound, hobject, rfl,
    fun position hmem => Nat.lt_irrefl _ (hlater r position hmem).2, fun hnoReset => ?_⟩
  rw [hafter hnoReset]
  exact ⟨rfl, rfl, rfl⟩

/-- Nothing resets the reusable animation between a reset and a start by an object after which, in
construction order, no object binds a transient animation. -/
theorem reusable_rebuilt_of_last {json : Option Json} {path : String} {scene : Scene}
    (hload : Scene.load json path = .ok scene) {o : Options} {c : Compilation scene.size}
    (hcompile : compile scene.heap scene.root o = .ok c) {r : Fin scene.size}
    (hlast : ∀ i, c.plan.Resets i →
      c.plan.merge.graph.index i ≤ c.plan.merge.graph.index r) :
    ∃ program, c.plan.program ⟨o.durationMs, o.setComments⟩ = .ok program ∧
      ∀ left position target property right,
        program.trace = left ++ .perform r position
          (.startAnimation target property (.holder .reusable)) :: right →
        ∃ a base q expression, program.bound? r position = some a ∧
          c.plan.merge.object a = .composition base (.expressionAnimation q expression) ∧
          (Reusable.after left).expression = some expression ∧
          (Reusable.after left).parameters =
            fun name => (q.object? name).map fun j => c.plan.merge.representative[j] := by
  obtain ⟨program, h⟩ := Scene.exists_writes hload hcompile
  refine ⟨program, h.answered, fun left position target property right hsplit => ?_⟩
  obtain ⟨a, base, q, expression, before, reset, between, hbound, hobject, _, hlater, hafter⟩ :=
    h.exists_prepared hsplit
  have hnoReset : Event.NoReset between := by
    intro i k hmem
    obtain ⟨hresets, hlt⟩ := hlater i k hmem
    exact Nat.not_lt.mpr (hlast i hresets) hlt
  refine ⟨a, base, q, expression, hbound, hobject, ?_⟩
  rw [hafter hnoReset]
  exact ⟨rfl, rfl⟩

/-- Two transient animations on the root, of which only the first has a target. -/
def keptTargetDocument : Option Json :=
  Scene.documentOf [
    ("root", .object [("type", .string "ContainerVisual"),
      ("animators", .array [
        .object [("property", .string "Opacity"), ("animation", .string "e")],
        .object [("property", .string "Scale"), ("animation", .string "f")]])]),
    ("e", .object [("type", .string "ExpressionAnimation"), ("expression", .string "a"),
      ("target", .string "T"), ("referenceParameters", .object [("self", .string "root")])]),
    ("f", .object [("type", .string "ExpressionAnimation"), ("expression", .string "b")])]

private theorem keptTarget_scene :
    ∃ scene, Scene.load keptTargetDocument "scene.json" = .ok scene ∧
      ∃ c, compile scene.heap scene.root
        { className := "Scene", width := 100, height := 100, durationMs := 1000 } = .ok c ∧
      (∀ r ∈ ((Graph.ofRoot scene.heap scene.root).merged false).representatives,
        ((Graph.ofRoot scene.heap scene.root).merged false).transient r = false →
          r = scene.root) ∧
      ∃ e f,
        animatorReferences ((Graph.ofRoot scene.heap scene.root).object scene.root).started =
          [e, f] ∧
        expression? ((Graph.ofRoot scene.heap scene.root).object e) =
          some (⟨some "T", [("self", scene.root)]⟩, "a") ∧
        expression? ((Graph.ofRoot scene.heap scene.root).object f) = some (⟨none, []⟩, "b") ∧
        ((Graph.ofRoot scene.heap scene.root).merged false).transient
          ((Graph.ofRoot scene.heap scene.root).merged false).representative[e] = true ∧
        ((Graph.ofRoot scene.heap scene.root).merged false).transient
          ((Graph.ofRoot scene.heap scene.root).merged false).representative[f] = true :=
  Scene.exists_compiles (by decide +kernel) fun _ _ _ _ h => h

theorem reusable_rebuilt_keptTarget :
    ∃ scene, Scene.load keptTargetDocument "scene.json" = .ok scene ∧
      ∃ c, compile scene.heap scene.root
          { className := "Scene", width := 100, height := 100, durationMs := 1000 } = .ok c ∧
        ∃ program, c.plan.program ⟨1000, false⟩ = .ok program ∧
          ∃ left position target property right,
            program.trace = left ++ .perform scene.root position
              (.startAnimation target property (.holder .reusable)) :: right ∧
            (Reusable.after left).expression = some "a" ∧
            (Reusable.after left).target = some "T" ∧
            (Reusable.after left).parameters "self" = some scene.root := by
  obtain ⟨scene, hload, c, hcompile, honly, e, f, hstarted, he, _, htransient, _⟩ :=
    keptTarget_scene
  obtain ⟨program, hprogram, _, _, hstarts⟩ := reusable_rebuilt_at_start hload hcompile
  obtain ⟨program', h⟩ := Scene.exists_writes hload hcompile
  cases Except.ok.inj (hprogram.symm.trans h.answered)
  obtain ⟨base, hobject⟩ := exists_of_expression? he
  have hlist : animatorReferences ((Graph.ofRoot scene.heap scene.root).object scene.root).started =
      [] ++ e :: [f] := hstarted
  obtain ⟨left, position, target, property, right, _, htrace, hbound, _⟩ :=
    h.exists_start hlist hobject htransient
  obtain ⟨a, base', q, expression, before, reset, between, hbound', hobject', hleft, hown, hstate⟩ :=
    hstarts left _ position target property right htrace
  cases Option.some.inj (hbound.symm.trans hbound')
  rw [← h.plan, h.merge_object, hobject] at hobject'
  cases hobject'
  have hnoReset : Event.NoReset between := by
    intro i k hmem
    have hevent : .perform i k .clearParameters ∈ program.trace := by
      rw [htrace, hleft]
      simp [hmem]
    obtain ⟨hrep, hretained, _⟩ :=
      h.follows.mem_withFactory.mp (h.orderly_trace.later i k _ hevent).1
    cases honly i hrep hretained
    exact hown k hmem
  obtain ⟨hexpression, hparameters, htarget⟩ := hstate hnoReset
  refine ⟨scene, hload, c, hcompile, program, hprogram, left, position, target, property, right,
    htrace, hexpression, htarget, ?_⟩
  rw [hparameters, ← h.plan, h.follows.merge]
  exact congrArg some (Merge.representative_root (Merge.merged_lawful h.ordered false) h.kinded)

theorem reusable_target_kept :
    ∃ scene, Scene.load keptTargetDocument "scene.json" = .ok scene ∧
      ∃ c, compile scene.heap scene.root
          { className := "Scene", width := 100, height := 100, durationMs := 1000 } = .ok c ∧
        ∃ program, c.plan.program ⟨1000, false⟩ = .ok program ∧
          ∃ left position target property right a base q expression,
            program.trace = left ++ .perform scene.root position
              (.startAnimation target property (.holder .reusable)) :: right ∧
            program.bound? scene.root position = some a ∧
            c.plan.merge.object a = .composition base (.expressionAnimation q expression) ∧
            (Reusable.after left).target ≠ Text.present? q.target := by
  obtain ⟨scene, hload, c, hcompile, _, e, f, hstarted, he, hf, hetransient, hftransient⟩ :=
    keptTarget_scene
  obtain ⟨program, h⟩ := Scene.exists_writes hload hcompile
  obtain ⟨ebase, heobject⟩ := exists_of_expression? he
  obtain ⟨fbase, hfobject⟩ := exists_of_expression? hf
  have hlist : animatorReferences ((Graph.ofRoot scene.heap scene.root).object scene.root).started =
      [e] ++ f :: [] := hstarted
  obtain ⟨left, position, target, property, right, before, htrace, hbound, hbinds, hearlier⟩ :=
    h.exists_start hlist hfobject hftransient
  have hfront : program.plan.Binds scene.root ([] ++ e :: []) before := hbinds
  obtain ⟨first, top, _, _, rest, _, rfl⟩ := hfront.exists_transient
    ((h.merge_object e).trans heobject) (h.site_not_retained hetransient)
  have hpresent : Text.present? (some "T") = some "T" := by decide
  obtain ⟨k, performed, hmem, hmap⟩ :=
    hearlier (.assign .reusable "Target" (.text "T")) (by simp [Plan.startTransient, hpresent])
  have hsome := Reusable.after_target_isSome hmem hmap
  refine ⟨scene, hload, c, hcompile, program, h.answered, left, position, target, property, right, f,
    fbase, ⟨none, []⟩, "b", htrace, hbound, ?_, fun heq => ?_⟩
  · rw [← h.plan, h.merge_object, hfobject]
  · rw [heq] at hsome
    cases hsome

/-! ## A parameter that resets the reusable animation -/

/-- A transient animation on the root with a parameter, on which there is another one. -/
def nestedResetDocument : Option Json :=
  Scene.documentOf [
    ("root", .object [("type", .string "ContainerVisual"),
      ("animators", .array [
        .object [("property", .string "Opacity"), ("animation", .string "e")]])]),
    ("e", .object [("type", .string "ExpressionAnimation"), ("expression", .string "a"),
      ("referenceParameters", .object [("p", .string "x")])]),
    ("x", .object [("type", .string "ContainerVisual"),
      ("animators", .array [
        .object [("property", .string "Scale"), ("animation", .string "f")]])]),
    ("f", .object [("type", .string "ExpressionAnimation"), ("expression", .string "b")])]

def Object.soleAnimator? {ρ : Type} : Object ρ → Option (String × ρ)
  | .composition ⟨_, ⟨[], []⟩, [], [.plain property animation]⟩
      (.containerVisual ⟨none, none, none, none, none, none, []⟩) => some (property, animation)
  | _ => none

theorem Object.exists_of_soleAnimator? {ρ : Type} {object : Object ρ} {property : String} {a : ρ}
    (h : object.soleAnimator? = some (property, a)) :
    ∃ description, object = .composition ⟨description, {}, [], [.plain property a]⟩
      (.containerVisual {}) := by
  unfold soleAnimator? at h
  split at h
  · cases h
    exact ⟨_, rfl⟩
  · cases h

namespace Graph.Writes

variable {n : Nat} {g : Graph n} {o : Options} {c : Compilation n} {program : Program n}
  (h : g.Writes o c program)

include h

theorem factory_soleAnimator (hcomments : o.setComments = false) {r : Fin n} {property : String}
    {a : Fin n} (hsole : (g.object r).soleAnimator? = some (property, a)) {base : Base (Fin n)}
    {q : Parameters (Fin n)} {expression : String}
    (hobject : g.object a = .composition base (.expressionAnimation q expression))
    (htransient : (g.merged o.setComments).transient
      (g.merged o.setComments).representative[a] = true) :
    program.plan.factory ⟨o.durationMs, o.setComments⟩ r =
      ⟨.call "CreateContainerVisual" [], false,
        program.plan.startTransient (some r) ⟨.result, false⟩ property a q expression⟩ := by
  obtain ⟨description, hself⟩ := Object.exists_of_soleAnimator? hsole
  have hstart : program.plan.startAnimations r ⟨description, {}, [], [.plain property a]⟩ =
      program.plan.startTransient (some r) ⟨.result, false⟩ property a q expression := by
    rw [Plan.startAnimations, Plan.bindAll, Plan.bindAll, Plan.bindAll, Plan.bind, Plan.start,
      h.merge_object, hobject]
    simp only [h.site_not_retained htransient, Bool.false_eq_true, if_false, List.nil_append]
    rw [Plan.declareControllers_append (program.plan.isBinding_startTransient ..)]
    exact List.append_nil _
  rw [Plan.factory, h.merge_object, hself]
  simp [Construction.variantFactory, Construction.variantFactory.full, Construction.setUp,
    Construction.comment?, hcomments, Construction.insertValues, PropertyValues.isEmpty,
    Construction.visual, Construction.assignSome, Construction.fill, hstart]

theorem run_soleAnimator (hcomments : o.setComments = false) {r : Fin n}
    (hr : r ∈ program.plan.withFactory) {property : String}
    {a : Fin n} (hsole : (g.object r).soleAnimator? = some (property, a)) {base : Base (Fin n)}
    {q : Parameters (Fin n)} {expression : String}
    (hobject : g.object a = .composition base (.expressionAnimation q expression))
    (htransient : (g.merged o.setComments).transient
      (g.merged o.setComments).representative[a] = true) (depth : Nat) :
    ∃ quiet ss, (∀ event ∈ quiet, event = .enter r ∨ event = .assign r) ∧
      program.run (depth + 1) r = quiet ++ program.perform (program.run depth) r 0 ss ∧
      ss.map (Statement.map Reply.toRequest) =
        program.plan.startTransient (some r) ⟨.result, false⟩ property a q expression ∧
      ∀ reply ∈ ss.flatMap Statement.references, ∀ j,
        (∀ call, program.evaluate call reply = call j) →
          j ∈ program.plan.withFactory ∧ g.index r < g.index j := by
  have hm := h.lawful
  obtain ⟨made, hrun⟩ := h.run
  obtain ⟨factory, asked, hlookup, hasked, hanswered, _⟩ :=
    h.follows.exists_answered hm h.kinded h.partsRetained hrun hr
  have hfactory := h.factory_soleAnimator hcomments hsole hobject htransient
  have hsame := hanswered.same
  have hcreation := hanswered.creation
  rw [hfactory] at hsame hcreation
  have hcreation : factory.creation.references = [] := hcreation
  refine ⟨.enter r :: (if program.plan.sites[r].stored then [.assign r] else []),
    factory.statements, fun event hevent => ?_, ?_, hsame, fun reply hreply j hcalled => ?_⟩
  · split at hevent <;> simp_all
  · rw [Program.run, show program.factories.lookup r = some factory from hlookup]
    simp only [hcreation, List.flatMap_nil, List.nil_append, List.cons_append]
  · exact h.follows.later_of_called hm h.kinded h.partsRetained hrun hr hasked hanswered
      (List.mem_append_right _ hreply) hcalled

theorem expression_soleAnimator (hcomments : o.setComments = false) {r : Fin n}
    (hr : r ∈ program.plan.withFactory) {property : String}
    {a : Fin n} (hsole : (g.object r).soleAnimator? = some (property, a)) {base : Base (Fin n)}
    {q : Parameters (Fin n)} {expression : String} (hq : q.references = [])
    (hobject : g.object a = .composition base (.expressionAnimation q expression))
    (htransient : (g.merged o.setComments).transient
      (g.merged o.setComments).representative[a] = true) (depth : Nat) (state : Reusable n) :
    ((program.run (depth + 1) r).foldl Reusable.step state).expression = some expression := by
  obtain ⟨quiet, ss, hquiet, hrun, hss, _⟩ :=
    h.run_soleAnimator hcomments hr hsole hobject htransient depth
  have hself : program.plan.merge.representative[r] = r := by
    rw [h.follows.merge]
    exact (Merge.mem_representatives.mp (h.follows.mem_withFactory.mp hr).1).2
  have hnone : ss.flatMap Statement.references = [] := by
    have hmap : (ss.flatMap Statement.references).map Reply.toRequest = [] := by
      rw [List.map_flatMap]
      simp only [← Statement.references_map, ← List.flatMap_map, hss]
      simp [Plan.startTransient, hq, Statement.references, Operand.references]
    exact List.map_eq_nil_iff.mp hmap
  obtain ⟨building, hblock, _, hrebuild⟩ := program.plan.startTransient_eq hself true
    ⟨.result, false⟩ property a q expression
  have hblock : ss.map (Statement.map Reply.toRequest) = _ := hss.trans hblock
  have hstill : quiet.foldl Reusable.step state = state :=
    Reusable.foldl_quiet (fun event hevent => by
      rcases hquiet event hevent with rfl | rfl <;> rfl) state
  rw [hrun, List.foldl_append, hstill, Program.foldl_perform (by simp [hnone]), hblock,
    List.foldl_cons, List.foldl_append, hrebuild]
  rfl

theorem run_soleParameter (hcomments : o.setComments = false) {r : Fin n}
    (hr : r ∈ program.plan.withFactory) {property : String}
    {a : Fin n} (hsole : (g.object r).soleAnimator? = some (property, a)) {base : Base (Fin n)}
    {name : String} {x : Fin n} (hne : r ≠ x) {expression : String}
    (hobject : g.object a = .composition base (.expressionAnimation ⟨none, [(name, x)]⟩ expression))
    (htransient : (g.merged o.setComments).transient
      (g.merged o.setComments).representative[a] = true) (depth : Nat) :
    ∃ first reply value position, program.run (depth + 1) r =
        first ++ program.evaluate (program.run depth) reply ++
          [.perform r (position - 1) (.setParameter .reusable name value), .perform r position
            (.startAnimation ⟨.result, false⟩ property (.holder .reusable))] ∧
      (∀ i, .enter i ∈ first → i = r) ∧
      ∀ j, (∀ call, program.evaluate call reply = call j) →
        j ∈ program.plan.withFactory ∧ g.index r < g.index j := by
  obtain ⟨quiet, ss, hquiet, hrun, hss, hlater⟩ :=
    h.run_soleAnimator hcomments hr hsole hobject htransient depth
  have hnone : Text.present? none = none := by decide
  simp only [Plan.startTransient, hnone, Option.toList_none, List.map_nil, List.append_nil,
    List.cons_append, List.nil_append, List.map_cons, List.map_eq_cons_iff, List.map_eq_nil_iff,
    Option.some.injEq, if_neg hne] at hss
  obtain ⟨reset, _, rfl, hreset, assign, _, rfl, hassign, set, _, rfl, hset, start, _, rfl, hstart,
    rfl⟩ := hss
  cases Statement.map_eq_clearParameters hreset
  cases Statement.map_eq_startReusable hstart
  have hassigned : assign.references = [] :=
    List.map_eq_nil_iff.mp (by rw [← Statement.references_map, hassign]; rfl)
  cases set with
  | setParameter holder name' value =>
    cases value with
    | object reply =>
      obtain ⟨rfl, rfl, _⟩ := Statement.setParameter.inj hset
      refine ⟨quiet ++ [.perform r 0 .clearParameters, .perform r 1 assign], reply, .object reply, 3,
        ?_, fun i hi => ?_, hlater reply (by simp [Statement.references, Operand.references])⟩
      · rw [hrun, Program.perform, Program.perform, hassigned]
        simp [Program.perform, Statement.references, Operand.references]
      · simp only [List.mem_append, List.mem_cons, List.not_mem_nil, or_false, reduceCtorEq] at hi
        rcases hquiet _ hi with heq | heq <;> cases heq
        rfl
    | _ => cases hset
  | _ => cases hset

/-- Where only one other object has a factory, what the parameter is obtained by is the run of that
factory, which has to be entered somewhere. -/
theorem evaluate_eq_run {r x : Fin n} (hx : x ∈ program.plan.withFactory) (hne : r ≠ x)
    (honly : ∀ j ∈ program.plan.withFactory, j = r ∨ j = x) {first rest : List (Event n)}
    {reply : Reply n} {depth : Nat}
    (htrace : program.trace = first ++ program.evaluate (program.run depth) reply ++ rest)
    (hfirst : ∀ i, .enter i ∈ first → i = r) (hrest : .enter x ∉ rest)
    (hcalled : ∀ j, (∀ call, program.evaluate call reply = call j) →
      j ∈ program.plan.withFactory ∧ g.index r < g.index j) :
    program.evaluate (program.run depth) reply = program.run depth x := by
  have hentered := h.enter_mem_trace hx
  rw [htrace, List.mem_append, List.mem_append, or_iff_left hrest] at hentered
  have hnot : .enter x ∉ first := fun hmem => hne (hfirst x hmem).symm
  rw [or_iff_right hnot] at hentered
  rcases program.evaluate_cases reply with heq | ⟨i, heq⟩ | ⟨j, heq⟩
  · simp [heq] at hentered
  · simp [heq] at hentered
  · obtain ⟨hj, hlt⟩ := hcalled j heq
    rcases honly j hj with rfl | rfl
    · exact absurd hlt (Nat.lt_irrefl _)
    · exact heq _

end Graph.Writes

private theorem nestedReset_scene :
    ∃ scene, Scene.load nestedResetDocument "scene.json" = .ok scene ∧
      ∃ c, compile scene.heap scene.root
        { className := "Scene", width := 100, height := 100, durationMs := 1000 } = .ok c ∧
      scene.size = 4 ∧
      ∃ x ∈ ((Graph.ofRoot scene.heap scene.root).merged false).representatives,
        (∀ r ∈ ((Graph.ofRoot scene.heap scene.root).merged false).representatives,
          ((Graph.ofRoot scene.heap scene.root).merged false).transient r = false →
            r = scene.root ∨ r = x) ∧
        (∃ e, ((Graph.ofRoot scene.heap scene.root).object scene.root).soleAnimator? =
            some ("Opacity", e) ∧
          expression? ((Graph.ofRoot scene.heap scene.root).object e) =
            some (⟨none, [("p", x)]⟩, "a") ∧
          ((Graph.ofRoot scene.heap scene.root).merged false).transient
            ((Graph.ofRoot scene.heap scene.root).merged false).representative[e] = true) ∧
        ∃ f, ((Graph.ofRoot scene.heap scene.root).object x).soleAnimator? = some ("Scale", f) ∧
          expression? ((Graph.ofRoot scene.heap scene.root).object f) = some (⟨none, []⟩, "b") ∧
          ((Graph.ofRoot scene.heap scene.root).merged false).transient
            ((Graph.ofRoot scene.heap scene.root).merged false).representative[f] = true :=
  Scene.exists_compiles (by decide +kernel) fun _ _ _ _ h => h

/-- The reusable animation is started for one animation with the expression of another, which a factory
called for a parameter has left there. -/
theorem reusable_reset_by_parameter :
    ∃ scene, Scene.load nestedResetDocument "scene.json" = .ok scene ∧
      ∃ c, compile scene.heap scene.root
          { className := "Scene", width := 100, height := 100, durationMs := 1000 } = .ok c ∧
        ∃ program, c.plan.program ⟨1000, false⟩ = .ok program ∧
          ∃ left position target property right a base q expression,
            program.trace = left ++ .perform scene.root position
              (.startAnimation target property (.holder .reusable)) :: right ∧
            program.bound? scene.root position = some a ∧
            c.plan.merge.object a = .composition base (.expressionAnimation q expression) ∧
            (Reusable.after left).expression ≠ some expression := by
  obtain ⟨scene, hload, c, hcompile, hsize, x, hx, honly, ⟨e, hroot, he, hetransient⟩,
    f, hchild, hf, hftransient⟩ := nestedReset_scene
  obtain ⟨program, h⟩ := Scene.exists_writes hload hcompile
  obtain ⟨ebase, heobject⟩ := exists_of_expression? he
  obtain ⟨fbase, hfobject⟩ := exists_of_expression? hf
  obtain ⟨_, hxobject⟩ := Object.exists_of_soleAnimator? hchild
  have hxfactory : x ∈ program.plan.withFactory := by
    refine h.follows.mem_withFactory_of_started hx ?_
    change ((Graph.ofRoot scene.heap scene.root).object x).started ≠ []
    rw [hxobject]
    simp [Object.started, Variant.startsAnimations, Base.animators]
  have hne : scene.root ≠ x := by
    intro heq
    rw [← heq, hroot] at hchild
    simp at hchild
  have htrace : program.trace = program.run 4 scene.root := by
    rw [Program.trace, h.plan_root]
    exact congrArg (fun depth => program.run depth scene.root) hsize
  obtain ⟨first, reply, value, position, hrun, hfirst, hcalled⟩ := h.run_soleParameter rfl
    h.root_mem_withFactory hroot hne heobject hetransient 3
  have hrun : program.trace = _ := htrace.trans hrun
  have hevaluate := h.evaluate_eq_run hxfactory hne (fun j hj => by
    obtain ⟨hrep, hretained, _⟩ := h.follows.mem_withFactory.mp hj
    exact honly j hrep hretained) hrun hfirst (by simp) hcalled
  have hsplit : program.trace = (first ++ program.run 3 x ++
      [.perform scene.root (position - 1) (.setParameter .reusable "p" value)]) ++
        .perform scene.root position (.startAnimation ⟨.result, false⟩ "Opacity"
          (.holder .reusable)) :: [] := by
    rw [hrun, hevaluate]
    exact (List.append_assoc _ [_] [_]).symm
  obtain ⟨a, base, q, expression, _, _, _, hbound, hobject, _⟩ := h.exists_prepared hsplit
  obtain ⟨_, _, hget⟩ := Option.bind_eq_some_iff.mp hbound
  have ha := List.mem_of_getElem? hget
  rw [h.merge_object, (Object.exists_of_soleAnimator? hroot).choose_spec] at ha
  have ha : a = e := by simpa [Object.started, Variant.startsAnimations, Base.animators,
    animatorReferences, Animator.references] using ha
  subst ha
  rw [← h.plan, h.merge_object, heobject] at hobject
  cases hobject
  refine ⟨scene, hload, c, hcompile, program, h.answered, _, _, _, _, _, _, _, _, _, hsplit, hbound,
    by rw [← h.plan, h.merge_object, heobject], ?_⟩
  rw [Reusable.after, List.foldl_append, List.foldl_append]
  have hleft := h.expression_soleAnimator rfl hxfactory hchild rfl hfobject hftransient 2
    (first.foldl Reusable.step {})
  simp only [List.foldl_cons, List.foldl_nil, Reusable.step, Statement.map_setParameter,
    Reusable.perform]
  rw [hleft]
  decide

end SceneCompiler
