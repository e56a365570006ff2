import SceneCompiler.Proofs.Compile.Construction
import SceneCompiler.Proofs.Scene.Generation

/-!
# The code of plain scenes

The code of a scene without values and geometries begins with lines that only its class name, its
namespace and its duration decide.
-/

namespace SceneCompiler

def frontLines (className nameSpace : String) : List String :=
  Code.allLines "    " 0 (CSharp.header.map .line ++ (CSharp.usings false).map .line ++
    [.line "", .line ("namespace " ++ nameSpace), .line "\x7b"]) ++
  Code.allLines "    " 1
    [.line ("sealed class " ++ className ++ " : IAnimatedVisualSource"), .line "\x7b"] ++
  Code.allLines "    " 2 (CSharp.SourceFile.entry {} ++
    [.line "sealed class AnimatedVisual : IAnimatedVisual", .line "\x7b"])

def durationLine (ticks : Number) : String :=
  Layout.indented "    " 3 ("const long c_durationTicks = " ++ CSharp.integer ticks ++ ";")

theorem exists_lines (u : CSharp.SourceFile) (hnames : u.propertyNames = [])
    (hlibrary : u.usesGeometryLibrary = false) :
    ∃ rest, Code.allLines "    " 0 (u.code {}) =
      frontLines u.className u.nameSpace ++ durationLine u.durationTicks :: rest := by
  have hconstants : u.constants = [] := by
    rw [CSharp.SourceFile.constants, hnames]
    rfl
  simp only [CSharp.SourceFile.code, hconstants, hlibrary, frontLines, Code.allLines_append,
    Code.allLines, Code.lines, List.nil_append, CSharp.SourceFile.fields, List.append_assoc,
    List.cons_append, List.append_nil]
  exact ⟨_, rfl⟩

theorem exists_code {json : Option Json} {path : String} {scene : Scene}
    (hload : Scene.load json path = .ok scene) {o : Options} (hdialect : o.dialect = {})
    {c : Compilation scene.size} (hcompile : compile scene.heap scene.root o = .ok c)
    (hplain : ∀ i : Fin scene.size, scene.heap[i].kind ≠ "CanvasGeometry" ∧
      scene.heap[i].values.isEmpty = true) :
    ∃ rest, c.code.toList = (frontLines o.className o.nameSpace ++
      durationLine (CSharp.ticks o.durationMs) :: rest).flatMap fun line => line.toList ++ ['\n'] := by
  obtain ⟨program, h⟩ := Scene.exists_writes hload hcompile
  have hobject (i : Fin scene.size) : program.plan.merge.object i = scene.heap[i] := by
    rw [h.follows.merge]
    rfl
  have hvalues {values : PropertyValues} (hempty : values.isEmpty = true) :
      values.scalars.map (·.1) ++ values.vector2s.map (·.1) = ([] : List String) := by
    simpa [PropertyValues.isEmpty] using hempty
  have hnames (methods : List Code) : (program.plan.sourceFile o methods).propertyNames = [] := by
    rw [Plan.sourceFile, hobject]
    exact hvalues (hplain _).2
  have hlibrary (methods : List Code) :
      (program.plan.sourceFile o methods).usesGeometryLibrary = false := by
    refine List.any_eq_false.mpr fun r _ => ?_
    rw [hobject, beq_iff_eq]
    exact (hplain r).1
  obtain ⟨rest, hrest⟩ := exists_lines (program.plan.sourceFile o _) (hnames _) (hlibrary _)
  refine ⟨rest, ?_⟩
  rw [h.code, Program.code, hdialect, Code.render, Layout.toList_text (by rw [hrest]; simp), hrest]
  rfl

def classText (durationMs : String) : String :=
  "\x7b\"durationMs\": " ++ durationMs ++
    ", \"height\": 100, \"width\": 100, \"className\": \"A\", \"root\": \"root\", " ++
    "\"objects\": \x7b\"root\": \x7b\"type\": \"ContainerVisual\"\x7d\x7d\x7d"

theorem exists_classText {path durationMs : String} (duration : Number)
    (h : ((Json.parse? (classText durationMs)).any fun document =>
      (Scene.load (some document) path).toOption.any fun scene => decide (
        (Graph.ofRoot scene.heap scene.root).Sound false ∧
        (scene.options {} (some path)).className = "A" ∧ scene.durationMs = duration ∧
          ∀ i : Fin scene.size, scene.heap[i].kind ≠ "CanvasGeometry" ∧
            scene.heap[i].values.isEmpty = true)) = true) :
    ∃ code, generateFile path (classText durationMs) {} = .ok ⟨"A", code⟩ ∧
      ∃ rest, code.toList = (frontLines "A" "AnimatedVisuals" ++
        durationLine (CSharp.ticks duration) :: rest).flatMap fun line => line.toList ++ ['\n'] := by
  cases hparse : Json.parse? (classText durationMs) with
  | none =>
    rw [hparse] at h
    cases h
  | some document =>
    rw [hparse] at h
    obtain ⟨scene, hload, ⟨g, hg⟩, hname, rfl, hplain⟩ :=
      exists_generates (some document) {} (some path) nofun h
    obtain ⟨scene', hload', hgenerate⟩ := generate_eq_ok_iff.mp hg
    cases hload.symm.trans hload'
    obtain ⟨_, c, hcompile, rfl⟩ := (scene.generate_eq_ok_iff {} (some path)).mp hgenerate
    obtain ⟨rest, hcode⟩ := exists_code hload rfl hcompile hplain
    refine ⟨c.code, ?_, rest, ?_⟩
    · rw [generateFile, hparse, ← hname]
      exact hg
    · rw [hname] at hcode
      exact hcode

end SceneCompiler
