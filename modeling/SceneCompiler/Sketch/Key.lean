import SceneCompiler.Merge
import SceneCompiler.Sketch.Draft

/-!
What tells the objects of a sketch apart: the fields that count for their type, each by its JSON
text. A value of the type that belongs there has the atoms of that value.
-/

namespace SceneCompiler.Sketch

variable (s : Sketch)

def jsonAtoms (slot : Slot) : List Atom :=
  [.size 0, .text (s.json slot)]

/-- The atoms of a plain value. What JSON cannot write is null there, as numbers may be too. -/
def valueAtoms : Slot → List Atom
  | .absent => [.ofNumber .nan]
  | .null => [.ofNumber .nan]
  | .number n => [.ofNumber n]
  | .flag b => [.flag b]
  | .text t => [.text t]
  | slot => s.jsonAtoms slot

/-- The atoms of a record with these fields, or of a text. -/
def recordAtoms (names : List String) (slot : Slot) : List Atom :=
  let f := s.fields slot
  if f.present.map (·.1) = names then names.flatMap fun name => s.valueAtoms (f.get name)
  else
    match slot with
    | .text t => [.text t]
    | slot => s.jsonAtoms slot

def vector2Atoms (slot : Slot) : List Atom :=
  s.recordAtoms ["x", "y"] slot

def fieldAtoms (f : Slots) (names : List String) : List Atom :=
  names.flatMap fun name => s.valueAtoms (f.get name)

def vectorAtoms (f : Slots) (names : List String) : List Atom :=
  names.flatMap fun name => s.vector2Atoms (f.get name)

def commandNames : String → List String
  | "beginFigure" => ["kind", "startPoint"]
  | "addLine" => ["kind", "endPoint"]
  | "addCubicBezier" => ["kind", "controlPoint1", "controlPoint2", "endPoint"]
  | "endFigure" => ["kind", "figureLoop"]
  | _ => []

def commandAtoms (slot : Slot) : List Atom :=
  let f := s.fields slot
  let names := commandNames (f.get "kind").toText
  if !names.isEmpty && f.present.map (·.1) == names then
    names.flatMap fun name => s.vector2Atoms (f.get name)
  else s.jsonAtoms slot

def commandsAtoms (slot : Slot) : List Atom :=
  match s.cell? slot with
  | some (.list items) => .size items.length :: items.flatMap s.commandAtoms
  | _ => s.valueAtoms slot

def parameterAtoms (f : Slots) : List Atom :=
  let parameters := s.entries (f.get "referenceParameters")
  s.valueAtoms (f.get "target").orEmpty ++ .size parameters.length ::
    parameters.map fun p => .text p.1

def frameAtoms (value : Slot → List Atom) (f : Slots) : List Atom :=
  let frames := s.items (f.get "keyFrames")
  s.valueAtoms (f.get "duration") ++ .size frames.length ::
    frames.flatMap fun slot =>
      let k := s.fields slot
      s.valueAtoms (k.get "progress") ++
        if hasValue k then .text "value" :: value (k.get "value")
        else .text "expression" :: s.valueAtoms (k.get "expression")

def matrixNames : List String := ["m11", "m12", "m21", "m22", "m31", "m32"]

def trimNames : List String := ["trimStart", "trimEnd", "trimOffset"]

def variantAtoms? (f : Slots) : String → Option (List Atom)
  | "LinearEasingFunction" => some []
  | "CubicBezierEasingFunction" => some (s.vectorAtoms f ["controlPoint1", "controlPoint2"])
  | "StepEasingFunction" =>
    some (s.fieldAtoms f ["finalStep", "initialStep", "isFinalStepSingleFrame",
      "isInitialStepSingleFrame", "stepCount"])
  | "CompositionColorBrush" => some [.text (s.colorHex (f.get "color"))]
  | "CompositionEllipseGeometry" =>
    some (s.fieldAtoms f trimNames ++ s.vectorAtoms f ["center", "radius"])
  | "CompositionRectangleGeometry" =>
    some (s.fieldAtoms f trimNames ++ s.vectorAtoms f ["size"])
  | "CompositionRoundedRectangleGeometry" =>
    some (s.fieldAtoms f trimNames ++ s.vectorAtoms f ["size", "cornerRadius"])
  | "CompositionPathGeometry" => some (s.fieldAtoms f trimNames)
  | "ExpressionAnimation" => some (s.valueAtoms (f.get "expression") ++ s.parameterAtoms f)
  | "ColorKeyFrameAnimation" =>
    some (s.parameterAtoms f ++ s.frameAtoms (fun v => [.text (s.colorHex v)]) f)
  | "ScalarKeyFrameAnimation" => some (s.parameterAtoms f ++ s.frameAtoms s.valueAtoms f)
  | "Vector2KeyFrameAnimation" => some (s.parameterAtoms f ++ s.frameAtoms s.vector2Atoms f)
  | "Vector3KeyFrameAnimation" =>
    some (s.parameterAtoms f ++ s.frameAtoms (s.recordAtoms ["x", "y", "z"]) f)
  | "PathKeyFrameAnimation" => some (s.parameterAtoms f ++ s.frameAtoms (fun _ => []) f)
  | _ => none

def geometryAtoms? (f : Slots) : String → Option (List Atom)
  | "Combination" =>
    some (s.recordAtoms matrixNames (f.get "matrix") ++ s.fieldAtoms f ["combineMode"])
  | "Ellipse" => some (s.fieldAtoms f ["x", "y", "radiusX", "radiusY"])
  | "Path" =>
    some (s.fieldAtoms f ["filledRegionDetermination"] ++ s.commandsAtoms (f.get "commands"))
  | "RoundedRectangle" => some (s.fieldAtoms f ["x", "y", "w", "h", "radiusX", "radiusY"])
  | _ => none

def atoms? (keepComments : Bool) (slot : Slot) : Option (List Atom) :=
  let f := s.fields slot
  let type := (f.get "type").toText
  if type == "CompositionPath" then some [.text type]
  else if type == "CanvasGeometry" then
    let geometry := (f.get "geometryType").toText
    (s.geometryAtoms? f geometry).map fun fields => .text type :: .text geometry :: fields
  else if s.isAnimated f || s.hasProperties f then none
  else
    (s.variantAtoms? f type).map fun fields =>
      .text type :: fields ++
        if keepComments then s.valueAtoms (f.get "comment").orEmpty else []

end SceneCompiler.Sketch
