import SceneCompiler.Sketch.Key

/-!
Whether the fields of the objects of a sketch are of the types that they have in the model.
-/

namespace SceneCompiler

namespace Slot

def isNumber : Slot → Bool
  | .number _ => true
  | _ => false

def isText : Slot → Bool
  | .text _ => true
  | _ => false

def isFlag : Slot → Bool
  | .flag _ => true
  | _ => false

def isMember (α : Type) [Named α] (slot : Slot) : Bool :=
  (slot.toText?.bind fun text => (Named.find? text : Option α)).isSome

end Slot

namespace Sketch

variable (s : Sketch)

def areNumbers (f : Slots) (names : List String) : Bool :=
  names.all fun name => (f.get name).isNumber

def isRecord (names : List String) (slot : Slot) : Bool :=
  let f := s.fields slot
  f.present.map (·.1) == names && areNumbers f names

def arePoints (f : Slots) (names : List String) : Bool :=
  names.all fun name => s.isRecord ["x", "y"] (f.get name)

def isTable (slot : Slot) : Bool :=
  s.cell? slot == some (.table (s.entries slot))

def isList (slot : Slot) : Bool :=
  s.cell? slot == some (.list (s.items slot))

def colorNames : List String := ["a", "r", "g", "b"]

def typedCommand (slot : Slot) : Bool :=
  let f := s.fields slot
  let names := commandNames (f.get "kind").toText
  !names.isEmpty && f.present.map (·.1) == names && names.tail.all fun name =>
    if name == "figureLoop" then (f.get name).isMember FigureLoop
    else s.isRecord ["x", "y"] (f.get name)

def typedFrame (value : Slot → Bool) (slot : Slot) : Bool :=
  let k := s.fields slot
  (k.get "progress").isNumber &&
    if hasValue k then value (k.get "value")
    else k.get "kind" == .text "expression" && (k.get "expression").isText

def typedFrames (value : Slot → Bool) (f : Slots) : Bool :=
  (f.get "duration").isNumber && (s.items (f.get "keyFrames")).all (s.typedFrame value)

def typedParameters (f : Slots) : Bool :=
  let target := f.get "target"
  (target == .absent || target.isText) && s.isTable (f.get "referenceParameters")

def typedSprite (f : Slots) : Bool :=
  (["strokeDashCap", "strokeEndCap", "strokeStartCap"].all fun name =>
    (f.get name).isMember StrokeCap) && (f.get "strokeLineJoin").isMember LineJoin &&
  areNumbers f ["strokeDashOffset", "strokeMiterLimit", "strokeThickness"]

def typedVariant (f : Slots) : String → Bool
  | "ContainerVisual" => s.isList (f.get "children")
  | "ShapeVisual" => s.isList (f.get "children")
  | "InsetClip" =>
    s.arePoints f ["centerPoint", "scale"] &&
      areNumbers f ["leftInset", "rightInset", "topInset", "bottomInset"]
  | "CompositionSpriteShape" => typedSprite f
  | "CompositionEllipseGeometry" => areNumbers f trimNames && s.arePoints f ["center", "radius"]
  | "CompositionRectangleGeometry" => areNumbers f trimNames && s.arePoints f ["size"]
  | "CompositionRoundedRectangleGeometry" =>
    areNumbers f trimNames && s.arePoints f ["size", "cornerRadius"]
  | "CompositionPathGeometry" => areNumbers f trimNames
  | "CompositionColorBrush" => s.isRecord colorNames (f.get "color")
  | "CubicBezierEasingFunction" => s.arePoints f ["controlPoint1", "controlPoint2"]
  | "StepEasingFunction" =>
    areNumbers f ["finalStep", "initialStep", "stepCount"] &&
      ["isFinalStepSingleFrame", "isInitialStepSingleFrame"].all fun name => (f.get name).isFlag
  | "ExpressionAnimation" => s.typedParameters f && (f.get "expression").isText
  | "ColorKeyFrameAnimation" => s.typedParameters f && s.typedFrames (s.isRecord colorNames) f
  | "ScalarKeyFrameAnimation" => s.typedParameters f && s.typedFrames Slot.isNumber f
  | "Vector2KeyFrameAnimation" =>
    s.typedParameters f && s.typedFrames (s.isRecord ["x", "y"]) f
  | "Vector3KeyFrameAnimation" =>
    s.typedParameters f && s.typedFrames (s.isRecord ["x", "y", "z"]) f
  | "PathKeyFrameAnimation" => s.typedParameters f && s.typedFrames Slot.toFlag f
  | _ => true

def typedGeometry (f : Slots) : String → Bool
  | "Combination" =>
    s.isRecord matrixNames (f.get "matrix") && (f.get "combineMode").isMember CombineMode
  | "Path" =>
    (f.get "filledRegionDetermination").isMember FilledRegion && s.isList (f.get "commands") &&
      (s.items (f.get "commands")).all s.typedCommand
  | "Ellipse" => areNumbers f ["x", "y", "radiusX", "radiusY"]
  | "RoundedRectangle" => areNumbers f ["x", "y", "w", "h", "radiusX", "radiusY"]
  | _ => true

def typedAnimator (a : Slots) : Bool :=
  let animation := s.fields (a.get "animation")
  (a.get "animatedProperty").isText &&
    (animation.get "type" != .text "ExpressionAnimation" || (animation.get "expression").isText)

def typedBase (f : Slots) : Bool :=
  let comment := f.get "comment"
  let set := s.propertySet f
  let (onProperties, own) := s.animatorSlots f
  let order := s.animatorOrder s.cells.size
  (comment == .absent || comment.isText) && s.isTable (set.get "scalarProperties") &&
    s.isTable (set.get "vector2Properties") &&
    (order onProperties ++ order own).all s.typedAnimator

/-- Whether all that is written as an object has it is of its type. -/
def isTyped (slot : Slot) : Bool :=
  let f := s.fields slot
  let type := (f.get "type").toText
  if type == "CompositionPath" then true
  else if type == "CanvasGeometry" then s.typedGeometry f (f.get "geometryType").toText
  else s.typedBase f && s.typedVariant f type

end Sketch

end SceneCompiler
