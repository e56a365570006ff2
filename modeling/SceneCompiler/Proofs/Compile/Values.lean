import SceneCompiler.Proofs.Compile.Construction
import SceneCompiler.Proofs.Constructor.Answers
import SceneCompiler.Proofs.Factory.Insertions
import SceneCompiler.Proofs.Factory.Literals

/-!
# The values of property sets

Every value of a property set is inserted where it belongs, once, unless the set is that of a transient
animation or of a controller: nothing is ever inserted into those.  An object with values is not merged
with others and is never written inline, so that it has a factory of its own or is transient.
-/

namespace SceneCompiler

variable {n : Nat}

mutual
def Animator.controllers {ρ : Type} : Animator ρ → List PropertyValues
  | .plain _ _ => []
  | .controlled _ _ values onProperties onController =>
    values :: (animatorControllers onProperties ++ animatorControllers onController)
def animatorControllers {ρ : Type} : List (Animator ρ) → List PropertyValues
  | [] => []
  | animator :: rest => animator.controllers ++ animatorControllers rest
end

def Object.controllers {ρ : Type} (o : Object ρ) : List PropertyValues :=
  animatorControllers o.started

namespace Merge

variable (m : Merge n) (d : CSharp.Dialect)

def objectLines (i : Fin n) : List (Option (PropertySet n) × Code) :=
  ((m.object i).values.lines d).map fun line => (some (.object i), line)

def controllerLines (i : Fin n) : List (Option (PropertySet n) × Code) :=
  (m.object i).controllers.zipIdx.flatMap fun (values, position) =>
    (values.lines d).map fun line => (some (.controller i position), line)

def owedLines : List (Option (PropertySet n) × Code) :=
  m.graph.order.flatMap fun i => m.objectLines d i ++ m.controllerLines d i

def lostLines : List (Option (PropertySet n) × Code) :=
  m.graph.order.flatMap fun i =>
    (if m.transient i then m.objectLines d i else []) ++ m.controllerLines d i

def ValuesKept : Prop :=
  ∀ i ∈ m.graph.order, (m.transient i = true → (m.object i).values.isEmpty = true) ∧
    ∀ values ∈ (m.object i).controllers, values.isEmpty = true

instance : Decidable m.ValuesKept :=
  inferInstanceAs (Decidable (∀ i ∈ m.graph.order, _ ∧ ∀ values ∈ (m.object i).controllers, _))

theorem objectLines_eq_nil_iff (i : Fin n) :
    m.objectLines d i = [] ↔ (m.object i).values.isEmpty = true := by
  rw [objectLines, List.map_eq_nil_iff, PropertyValues.lines_eq_nil_iff]

theorem controllerLines_eq_nil_iff (i : Fin n) :
    m.controllerLines d i = [] ↔ ∀ values ∈ (m.object i).controllers, values.isEmpty = true := by
  simp only [controllerLines, List.flatMap_eq_nil_iff, List.map_eq_nil_iff,
    PropertyValues.lines_eq_nil_iff]
  constructor
  · intro h values hvalues
    obtain ⟨position, hposition⟩ := List.mem_iff_getElem?.mp hvalues
    exact h (values, position) (List.mem_zipIdx_iff_getElem?.mpr hposition)
  · exact fun h entry hentry => h entry.1 (List.fst_mem_of_mem_zipIdx hentry)

theorem lostLines_eq_nil_iff : m.lostLines d = [] ↔ m.ValuesKept := by
  rw [lostLines, List.flatMap_eq_nil_iff]
  refine forall₂_congr fun i _ => ?_
  rw [List.append_eq_nil_iff, controllerLines_eq_nil_iff]
  cases m.transient i with
  | true => simp [objectLines_eq_nil_iff]
  | false => simp

theorem mem_representatives_of_values {m : Merge n} {keep : Bool}
    (hm : m.Lawful (m.graph.atoms keep)) {i : Fin n} (hi : i ∈ m.graph.order)
    (hvalues : (m.object i).values.isEmpty = false) :
    i ∈ m.representatives ∧ m.inlines i = false := by
  cases hobject : m.object i with
  | composition base variant =>
    rw [hobject] at hvalues
    change base.values.isEmpty = false at hvalues
    have halone : m.graph.atoms keep i = none := by
      change (m.object i).atoms? keep = none
      rw [hobject, Object.atoms?, hvalues]
      simp
    exact ⟨mem_representatives.mpr ⟨hi, hm.representative_of_alone hi halone⟩,
      not_inlines m fun _ _ h => by rw [hobject] at h; cases h⟩
  | path description source =>
    rw [hobject] at hvalues
    cases hvalues
  | canvas description geometry =>
    rw [hobject] at hvalues
    cases hvalues

end Merge

def Factory.performed {ρ : Type} (f : Factory ρ) : List (Statement ρ) :=
  if f.bare then [] else f.statements

/-- The lines of a program that insert values, each with the property set at hand. -/
def Program.insertedLines (program : Program n) (d : CSharp.Dialect) :
    List (Option (PropertySet n) × Code) :=
  program.factories.flatMap fun (r, factory) =>
    insertions d r none (factory.map Reply.access).performed

theorem flatMap_filter_of_nil {α β : Type} {p : α → Bool} {f : α → List β} {as : List α}
    (h : ∀ a ∈ as, p a = false → f a = []) : (as.filter p).flatMap f = as.flatMap f := by
  induction as with
  | nil => rfl
  | cons a as ih =>
    have hrest := ih fun b hb => h b (List.mem_cons_of_mem a hb)
    cases ha : p a with
    | true => rw [List.filter_cons_of_pos ha, List.flatMap_cons, List.flatMap_cons, hrest]
    | false =>
      rw [List.filter_cons_of_neg (by simp [ha]), List.flatMap_cons,
        h a List.mem_cons_self ha, hrest, List.nil_append]

namespace Graph.Writes

variable {g : Graph n} {o : Options} {c : Compilation n} {program : Program n}
  (h : g.Writes o c program)

include h

theorem insertions_entry {entry : Fin n × Factory (Reply n)} (hentry : entry ∈ program.factories) :
    insertions o.dialect entry.1 none (entry.2.map Reply.access).performed =
      (g.merged o.setComments).objectLines o.dialect entry.1 := by
  obtain ⟨made, hrun⟩ := h.run
  obtain ⟨_, hfactory, _⟩ := program.plan.factories_spec hrun entry hentry
  have hbare := program.plan.statements_of_bare ⟨o.durationMs, o.setComments⟩ entry.1
  have hinsertions := program.plan.insertions_factory ⟨o.durationMs, o.setComments⟩ entry.1 o.dialect
    fun _ => .field ""
  rw [← hfactory] at hbare hinsertions
  rw [h.follows.merge] at hinsertions
  have hperformed : (entry.2.map Reply.access).performed =
      entry.2.statements.map (Statement.map Reply.access) := by
    change (if entry.2.bare then [] else entry.2.statements.map _) = _
    cases hentryBare : entry.2.bare with
    | true =>
      have hnil := List.map_eq_nil_iff.mp (hbare hentryBare)
      rw [hnil]
      rfl
    | false => rfl
  rw [hperformed, Merge.objectLines, ← hinsertions]
  exact insertions_map_map _ _ _ _ _ _ _

theorem insertedLines_eq :
    program.insertedLines o.dialect =
      program.plan.withFactory.flatMap ((g.merged o.setComments).objectLines o.dialect) := by
  rw [h.plan, ← h.map_fst_factories, List.flatMap_map]
  exact List.flatMap_congr fun entry hentry => h.insertions_entry hentry

theorem insertedLines_perm :
    (program.insertedLines o.dialect).Perm
      (g.order.flatMap fun i => if (g.merged o.setComments).transient i then []
        else (g.merged o.setComments).objectLines o.dialect i) := by
  have hm := h.lawful
  have hperm : program.plan.withFactory.Perm (g.order.filter (· ∈ program.plan.withFactory)) := by
    refine (List.perm_ext_iff_of_nodup (h.follows.nodup_withFactory hm.nodup_representatives)
      (h.ordered.nodup.filter _)).mpr fun i => ?_
    rw [List.mem_filter, decide_eq_true_eq]
    exact ⟨fun hi => ⟨(Merge.mem_representatives.mp (h.follows.mem_withFactory.mp hi).1).1, hi⟩,
      And.right⟩
  rw [h.insertedLines_eq]
  refine (hperm.flatMap_right _).trans
    (List.Perm.of_eq (Eq.trans ?_ (flatMap_filter_of_nil (p := (· ∈ program.plan.withFactory)) ?_)))
  · refine List.flatMap_congr fun i hi => ?_
    have hfactory : i ∈ program.plan.withFactory := of_decide_eq_true (List.mem_filter.mp hi).2
    rw [(h.follows.mem_withFactory.mp hfactory).2.1]
    rfl
  · intro i hi hnot
    cases htransient : (g.merged o.setComments).transient i with
    | true => rfl
    | false =>
      refine ((g.merged o.setComments).objectLines_eq_nil_iff o.dialect i).mpr ?_
      by_contra hvalues
      obtain ⟨hrep, hinlines⟩ := Merge.mem_representatives_of_values hm hi (by simpa using hvalues)
      exact of_decide_eq_false hnot (h.follows.mem_withFactory.mpr ⟨hrep, htransient, hinlines⟩)

end Graph.Writes

/-- The lines that insert values are those that the property sets call for, without those for transient
animations and for controllers.  So none is missing exactly if these have no values. -/
theorem values_inserted_iff {json : Option Json} {path : String} {scene : Scene}
    (hload : Scene.load json path = .ok scene) {o : Options} {c : Compilation scene.size}
    (hcompile : compile scene.heap scene.root o = .ok c) :
    let m := (Graph.ofRoot scene.heap scene.root).merged o.setComments
    ∃ program, c.plan.program ⟨o.durationMs, o.setComments⟩ = .ok program ∧
      c.code = program.code o ∧
      (program.insertedLines o.dialect ++ m.lostLines o.dialect).Perm (m.owedLines o.dialect) ∧
      ((program.insertedLines o.dialect).Perm (m.owedLines o.dialect) ↔ m.ValuesKept) := by
  intro m
  obtain ⟨program, h⟩ := Scene.exists_writes hload hcompile
  have hperm : (program.insertedLines o.dialect ++ m.lostLines o.dialect).Perm
      (m.owedLines o.dialect) := by
    refine ((h.insertedLines_perm).append_right _).trans
      ((List.flatMap_append_perm _ _ _).trans (List.Perm.of_eq (List.flatMap_congr fun i _ => ?_)))
    cases m.transient i <;> rfl
  refine ⟨program, h.answered, h.code, hperm, ?_⟩
  rw [← Merge.lostLines_eq_nil_iff _ o.dialect]
  constructor
  · intro hall
    have hlength := hperm.length_eq.trans hall.length_eq.symm
    rw [List.length_append, Nat.add_eq_left] at hlength
    exact List.length_eq_zero_iff.mp hlength
  · intro hlost
    rwa [hlost, List.append_nil] at hperm

/-- A transient animation and a controller, each with a value. -/
def lostValuesDocument : Option Json :=
  Scene.documentOf [
    ("root", .object [("type", .string "ContainerVisual"),
      ("animators", .array [
        .object [("property", .string "Opacity"), ("animation", .string "e")],
        .object [("property", .string "Scale"), ("animation", .string "k"),
          ("controller", .object [("properties", .object [("scalars", .object [("q", .number 2)])])])]])]),
    ("k", .object [("type", .string "ScalarKeyFrameAnimation"), ("duration", .number 1000)]),
    ("e", .object [("type", .string "ExpressionAnimation"), ("expression", .string "x"),
      ("properties", .object [("scalars", .object [("p", .number 1)])])])]

theorem values_lost_on_the_way :
    ∃ scene, Scene.load lostValuesDocument "scene.json" = .ok scene ∧
      ∃ c, compile scene.heap scene.root
          { className := "Scene", width := 100, height := 100, durationMs := 1000 } = .ok c ∧
        ∃ program, c.plan.program ⟨1000, false⟩ = .ok program ∧
          ¬(program.insertedLines {}).Perm
            (((Graph.ofRoot scene.heap scene.root).merged false).owedLines {}) := by
  refine Scene.exists_compiles (by decide +kernel) fun scene hload c hcompile
    (hlost : ¬((Graph.ofRoot scene.heap scene.root).merged false).ValuesKept) => ?_
  obtain ⟨program, hprogram, _, _, hiff⟩ := values_inserted_iff hload hcompile
  exact ⟨program, hprogram, fun hall => hlost (hiff.mp hall)⟩

end SceneCompiler
