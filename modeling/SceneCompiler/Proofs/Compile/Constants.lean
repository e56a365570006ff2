import SceneCompiler.Proofs.Compile.Construction
import SceneCompiler.Proofs.Factory.Literals

/-!
# The constants for the root's property names

The code of a scene declares one constant for each name in the property set of the root.  It is not
legal where the name begins with a digit.
-/

namespace SceneCompiler

def Scene.propertyNames (scene : Scene) : List String :=
  scene.heap[scene.root].values.names

/-- In the code of a loaded scene every name of the root's property set has one constant, and its
identifier is legal exactly if the name does not begin with a digit. -/
theorem property_constant_legal_iff {json : Option Json} {path : String} {scene : Scene}
    (hload : Scene.load json path = .ok scene) :
    (∀ name ∈ scene.propertyNames,
      ∃! id, (name, id) ∈ CSharp.propertyNameConstants scene.propertyNames) ∧
    (∀ constant ∈ CSharp.propertyNameConstants scene.propertyNames,
      constant.1 ∈ scene.propertyNames ∧
        (CSharp.IsIdentifier constant.2.toList ↔
          ∀ first ∈ constant.1.toList.head?, first.isDigit = false)) ∧
    ∀ o c, compile scene.heap scene.root o = .ok c →
      ∃ methods, c.code = Code.render ((c.plan.sourceFile o methods).code o.dialect) ∧
        (CSharp.propertyNameConstants scene.propertyNames).map
            (fun constant => CSharp.constantLine constant.1 constant.2) <+:
          (c.plan.sourceFile o methods).constants := by
  have hdeclares := CSharp.declares_propertyNameConstants scene.propertyNames
  refine ⟨fun name hname => hdeclares.existsUnique hname, fun constant hconstant => ?_, ?_⟩
  · obtain ⟨k, hid⟩ := hdeclares.identifier constant hconstant
    rw [hid]
    exact ⟨(hdeclares.mem_iff _).mp (List.mem_map_of_mem hconstant),
      CSharp.isIdentifier_candidate_iff constant.1 k⟩
  · intro o c hcompile
    obtain ⟨program, h⟩ := Scene.exists_writes hload hcompile
    have hroot : c.plan.merge.object c.plan.root = scene.heap[scene.root] := by
      rw [← h.plan, h.plan_root, h.follows.merge]
      rfl
    refine ⟨_, by rw [h.code, ← h.plan, Program.code], ?_⟩
    rw [CSharp.SourceFile.constants, Plan.sourceFile, hroot]
    exact List.prefix_append _ _

/-- A property set with a name that begins with a digit, two names for one word, and the empty name. -/
def namedDocument : Option Json :=
  Scene.documentOf [("root", .object [("type", .string "ContainerVisual"),
    ("properties", .object [
      ("scalars", .object [("1a", .number 1), ("a-b", .number 2), ("a_b", .number 3)]),
      ("vector2s", .object [("", .object [("x", .number 0), ("y", .number 0)])])])])]

theorem property_constant_digit :
    ∃ scene, Scene.load namedDocument "scene.json" = .ok scene ∧
      CSharp.propertyNameConstants scene.propertyNames =
        [("1a", "1aPropertyName"), ("a-b", "a_bPropertyName"), ("a_b", "a_b_1PropertyName"),
         ("", "PropertyName")] ∧
      ¬CSharp.IsIdentifier "1aPropertyName".toList ∧
      CSharp.IsIdentifier "a_b_1PropertyName".toList ∧
      CSharp.IsIdentifier "PropertyName".toList := by
  obtain ⟨scene, hload, hconstants⟩ :
      ∃ scene, Scene.load namedDocument "scene.json" = .ok scene ∧
        CSharp.propertyNameConstants scene.propertyNames =
          [("1a", "1aPropertyName"), ("a-b", "a_bPropertyName"), ("a_b", "a_b_1PropertyName"),
           ("", "PropertyName")] :=
    Scene.exists_of_load (by decide +kernel)
  obtain ⟨_, hlegal, _⟩ := property_constant_legal_iff hload
  rw [hconstants] at hlegal
  refine ⟨scene, hload, hconstants, ?_, ?_, ?_⟩
  · rw [(hlegal ("1a", "1aPropertyName") (by simp)).2]
    exact fun h => absurd (h '1' rfl) (by decide)
  · rw [(hlegal ("a_b", "a_b_1PropertyName") (by simp)).2]
    intro first hfirst
    cases hfirst
    rfl
  · rw [(hlegal ("", "PropertyName") (by simp)).2]
    intro first hfirst
    cases hfirst

end SceneCompiler
