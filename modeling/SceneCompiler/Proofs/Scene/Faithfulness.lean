import SceneCompiler.Proofs.Document.Acceptance
import SceneCompiler.Proofs.Scene.Kinds

/-!
# What loads, and as what

A document loads exactly if it is of the format, its root is a visual, every mention holds and no
record requires itself.  The scene then is the graph of objects that the records describe.
-/

namespace SceneCompiler

namespace Scene

theorem load_eq_ok_iff {json : Option Json} {path : String} {scene : Scene} :
    Scene.load json path = .ok scene ↔
      ∃ d, Describes json d ∧ ofDocument d = .ok scene := by
  simp only [load, ← Document.read_eq_ok_iff]
  cases Document.read json with
  | error issues => simp [Except.bind, Except.mapError]
  | ok d => cases h : ofDocument d <;> simp [Except.bind, Except.mapError, h]

theorem load_eq_error {json : Option Json} {path : String} {e : LoadError}
    (h : Scene.load json path = .error e) : e.sourcePath = path ∧ e.issues ≠ [] := by
  rw [load] at h
  cases hread : Document.read json with
  | error issues =>
    rw [hread] at h
    cases h
    exact ⟨rfl, Document.issues_of_read hread⟩
  | ok d =>
    rw [hread] at h
    rcases ofDocument_spec d with ⟨_, _, scene, _, hscene, _⟩ | ⟨_, issues, hissues, herror⟩
    · simp [Except.bind, Except.mapError, hscene] at h
    · simp only [Except.bind, herror, Except.mapError] at h
      cases h
      exact ⟨rfl, hissues⟩

/--
A document loads exactly if it is of the format, its root is a visual, every mention of any record
names a record of the kind asked for, and no record requires itself.  Otherwise there are issues.
-/
theorem exists_load_iff (json : Option Json) (path : String) :
    ((∃ scene, Scene.load json path = .ok scene) ↔
      ∃ d, Describes json d ∧ Linking.Holds d.records (.visual, d.root) ∧
        (∀ id o, d.records.lookup id = some o →
          ∀ part ∈ o.mentions, Linking.Holds d.records part) ∧
        ∀ id, ¬Relation.TransGen (Linking.Requires d.records) id id) ∧
      ∀ e, Scene.load json path = .error e → e.sourcePath = path ∧ e.issues ≠ [] := by
  refine ⟨⟨?_, ?_⟩, fun e => load_eq_error⟩
  · rintro ⟨scene, h⟩
    obtain ⟨d, hd, hscene⟩ := load_eq_ok_iff.mp h
    rcases ofDocument_spec d with ⟨hroot, hlinked, _⟩ | ⟨_, _, _, herror⟩
    · exact ⟨d, hd, hroot, hlinked.mentions, hlinked.acyclic⟩
    · rw [hscene] at herror
      cases herror
  · rintro ⟨d, hd, hroot, hmentions, hacyclic⟩
    rcases ofDocument_spec d with ⟨_, _, scene, _, hscene, _⟩ | ⟨hnot, _⟩
    · exact ⟨scene, load_eq_ok_iff.mpr ⟨d, hd, hscene⟩⟩
    · exact absurd ⟨hroot, hmentions, hacyclic⟩ hnot

/-- A loaded scene has one object for each record that its document describes, and nothing else. -/
theorem load_realizes {json : Option Json} {path : String} {scene : Scene}
    (h : Scene.load json path = .ok scene) :
    ∃ d place, Describes json d ∧ scene.Realizes d place := by
  obtain ⟨d, place, hread, hrealizes, _⟩ := exists_document h
  exact ⟨d, place, Document.read_eq_ok_iff.mp hread, hrealizes⟩

/-- Two shapes that share a brush, one of them animated under a controller that is animated too, and
a record that the root does not reach. -/
def sharedBrushDocument : Option Json :=
  documentOf [
    ("spare", .object [("type", .string "CompositionViewBox"),
      ("size", .object [("x", .number 1), ("y", .number 2)])]),
    ("root", .object [("type", .string "ShapeVisual"),
      ("shapes", .array [.string "s", .string "t", .string "s"])]),
    ("s", .object [("type", .string "CompositionSpriteShape"), ("fillBrush", .string "b"),
      ("animators", .array [.object [("property", .string "Scale"), ("animation", .string "e"),
        ("controller", .object [("animators", .array [
          .object [("property", .string "Progress"), ("animation", .string "e")]])])]])]),
    ("t", .object [("type", .string "CompositionSpriteShape"), ("fillBrush", .string "b"),
      ("strokeBrush", .string "b")]),
    ("b", .object [("type", .string "CompositionColorBrush"), ("color", .string "#ff00FF80")]),
    ("e", .object [("type", .string "ExpressionAnimation"), ("expression", .string "shape.Offset"),
      ("referenceParameters", .object [("shape", .string "t")])])]

theorem load_realizes_sharedBrush :
    ∃ scene, Scene.load sharedBrushDocument "scene.json" = .ok scene ∧ scene.size = 6 ∧
      ∃ d place, Describes sharedBrushDocument d ∧ scene.Realizes d place := by
  obtain ⟨scene, hload, hsize⟩ :
      ∃ scene, Scene.load sharedBrushDocument "scene.json" = .ok scene ∧ scene.size = 6 :=
    exists_of_load (by decide +kernel)
  exact ⟨scene, hload, hsize, load_realizes hload⟩

end Scene

end SceneCompiler
