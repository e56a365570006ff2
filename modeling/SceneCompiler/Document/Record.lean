import SceneCompiler.Document.Reading
import SceneCompiler.Model.Object

/-!
Records: how each object is written in a document. A record names other objects by id. Members are
read in a fixed order, which is the order of the issues.
-/

namespace SceneCompiler

mutual
def Json.depth : Json → Nat
  | .array items => depthOfItems items + 1
  | .object members => depthOfMembers members + 1
  | _ => 0
def depthOfItems : List Json → Nat
  | [] => 0
  | item :: rest => max item.depth (depthOfItems rest)
def depthOfMembers : List (String × Json) → Nat
  | [] => 0
  | (_, value) :: rest => max value.depth (depthOfMembers rest)
end

namespace Record

open Reader

def id : Reader String :=
  string |>.check (fun s => !s.isEmpty) "Expected an object id"

def ids : Reader (List String) :=
  list id

def vector2 : Reader Vector2 :=
  object fun f => Vector2.mk <$> f.required "x" number <*> f.required "y" number

def vector3 : Reader Vector3 :=
  object fun f =>
    Vector3.mk <$> f.required "x" number <*> f.required "y" number <*> f.required "z" number

def matrix3x2 : Reader Matrix3x2 :=
  object fun f =>
    Matrix3x2.mk <$> f.required "m11" number <*> f.required "m12" number
      <*> f.required "m21" number <*> f.required "m22" number
      <*> f.required "m31" number <*> f.required "m32" number

def isColor (text : String) : Bool :=
  match text.toList with
  | '#' :: digits =>
    digits.length == 8 && digits.all fun c => (Color.hexDigit? c.toNat).isSome
  | _ => false

def color : Reader Color := fun path j =>
  Color.ofText <$> (string |>.check isColor "Expected a color in the form #AARRGGBB") path j

def nonnegative : Reader Number :=
  number |>.check (Number.le 0) "Number must be greater than or equal to 0"

def positive : Reader Number :=
  number |>.check (Number.lt 0) "Number must be greater than 0"

def integer : Reader Number :=
  number |>.check Number.isInteger "Expected integer, received float"

def progress : Reader Number :=
  (number |>.check (Number.le 0) "Key frame progress must be within [0, 1]")
    |>.check (fun n => n.le 1) "Key frame progress must be within [0, 1]"

abbrev PropertySet := PropertyValues × List (Animator String)

def propertySetWith (animators : Reader (List (Animator String))) : Reader PropertySet :=
  object fun f =>
    (fun scalars vector2s animators => (⟨scalars, vector2s⟩, animators))
      <$> f.withDefault "scalars" [] (map number)
      <*> f.withDefault "vector2s" [] (map vector2)
      <*> f.withDefault "animators" [] animators

def controllerWith (animators : Reader (List (Animator String))) :
    Reader (PropertySet × List (Animator String)) :=
  object fun f =>
    Prod.mk <$> f.withDefault "properties" ({}, []) (propertySetWith animators)
      <*> f.withDefault "animators" [] animators

def animatorOf (property animation : String) :
    Option (PropertySet × List (Animator String)) → Animator String
  | some ((values, onProperties), onController) =>
    .controlled property animation values onProperties onController
  | none => .plain property animation

def animatorWith (animators : Reader (List (Animator String))) : Reader (Animator String) :=
  object fun f =>
    animatorOf
      <$> f.required "property" (string |>.check (fun s => !s.isEmpty) "Expected a property name")
      <*> f.required "animation" id
      <*> f.optional "controller" (controllerWith animators)

def animatorsTo : Nat → Reader (List (Animator String))
  | 0 => fun _ _ => pure []
  | depth + 1 => list (animatorWith (animatorsTo depth))

def animators : Reader (List (Animator String)) := fun path j =>
  animatorsTo (j.depth + 1) path j

def propertySet : Reader PropertySet :=
  propertySetWith animators

def description (f : Fields) : Reading Description :=
  Description.mk <$> f.optional "comment" string <*> f.optional "shortDescription" string
    <*> f.optional "longDescription" string

def base (f : Fields) : Reading (Base String) :=
  (fun description properties animators =>
    ⟨description, properties.1, properties.2, animators⟩)
    <$> description f
    <*> f.withDefault "properties" ({}, []) propertySet
    <*> f.withDefault "animators" [] animators

def visual (f : Fields) : Reading (Visual String) :=
  Visual.mk <$> f.optional "centerPoint" vector3 <*> f.optional "clip" id
    <*> f.optional "offset" vector3 <*> f.optional "rotationAngleInDegrees" number
    <*> f.optional "scale" vector3 <*> f.optional "size" vector2
    <*> f.withDefault "children" [] ids

def insetClip (f : Fields) : Reading InsetClip :=
  let fresh : InsetClip := {}
  InsetClip.mk <$> f.withDefault "centerPoint" fresh.centerPoint vector2
    <*> f.withDefault "scale" fresh.scale vector2
    <*> f.withDefault "leftInset" fresh.leftInset number
    <*> f.withDefault "rightInset" fresh.rightInset number
    <*> f.withDefault "topInset" fresh.topInset number
    <*> f.withDefault "bottomInset" fresh.bottomInset number

def placement (f : Fields) : Reading Placement :=
  Placement.mk <$> f.optional "centerPoint" vector2 <*> f.optional "offset" vector2
    <*> f.optional "rotationAngleInDegrees" number <*> f.optional "scale" vector2

def sprite (f : Fields) : Reading (Sprite String) :=
  let fresh : Sprite String := {}
  Sprite.mk <$> f.optional "fillBrush" id <*> f.optional "geometry" id
    <*> f.withDefault "isStrokeNonScaling" fresh.isStrokeNonScaling bool
    <*> f.optional "strokeBrush" id
    <*> f.withDefault "strokeDashCap" fresh.strokeDashCap named
    <*> f.withDefault "strokeDashOffset" fresh.strokeDashOffset number
    <*> f.withDefault "strokeDashArray" fresh.strokeDashArray (list number)
    <*> f.withDefault "strokeEndCap" fresh.strokeEndCap named
    <*> f.withDefault "strokeLineJoin" fresh.strokeLineJoin named
    <*> f.withDefault "strokeStartCap" fresh.strokeStartCap named
    <*> f.withDefault "strokeMiterLimit" fresh.strokeMiterLimit number
    <*> f.withDefault "strokeThickness" fresh.strokeThickness number

def trim (f : Fields) : Reading Trim :=
  let fresh : Trim := {}
  Trim.mk <$> f.withDefault "trimStart" fresh.start number
    <*> f.withDefault "trimEnd" fresh.stop number
    <*> f.withDefault "trimOffset" fresh.offset number

def stepEasing (f : Fields) : Reading StepEasing :=
  let fresh : StepEasing := {}
  StepEasing.mk <$> f.withDefault "finalStep" fresh.finalStep integer
    <*> f.withDefault "initialStep" fresh.initialStep integer
    <*> f.withDefault "isFinalStepSingleFrame" fresh.isFinalStepSingleFrame bool
    <*> f.withDefault "isInitialStepSingleFrame" fresh.isInitialStepSingleFrame bool
    <*> f.withDefault "stepCount" fresh.stepCount integer

def parameters (f : Fields) : Reading (Parameters String) :=
  Parameters.mk <$> f.optional "target" string <*> f.withDefault "referenceParameters" [] (map id)

def frameParts {α : Type} (value : Reader α) : Reader (Number × Option α × Option String × String) :=
  object fun f =>
    (fun progress value expression easing => (progress, value, expression, easing))
      <$> f.required "progress" progress <*> f.optional "value" value
      <*> f.optional "expression" string <*> f.required "easing" id

def keyFrame {α : Type} (value : Reader α) : Reader (KeyFrame String α) := fun path j =>
  let message := "Expected exactly one of value or expression"
  (frameParts value path j).andThen fun (progress, value, expression, easing) =>
    match value, expression with
    | some v, none => pure ⟨progress, .value v, easing⟩
    | none, some text => pure ⟨progress, .expression text, easing⟩
    | some _, some text =>
      .found ⟨progress, .expression text, easing⟩ [⟨KeyPath.text path, message⟩]
    | none, none => .reject path message

def pathKeyFrame : Reader (KeyFrame String String) :=
  object fun f =>
    (fun progress value easing => ⟨progress, .value value, easing⟩)
      <$> f.required "progress" progress <*> f.required "value" id <*> f.required "easing" id

def frames {α : Type} (frame : Reader (KeyFrame String α)) (f : Fields) :
    Reading (Frames String α) :=
  Frames.mk <$> f.required "duration" nonnegative <*> f.withDefault "keyFrames" [] (list frame)

def variantTypes : List (String × (Fields → Reading (Variant String))) :=
  [("ContainerVisual", fun f => .containerVisual <$> visual f),
   ("ShapeVisual", fun f =>
     .shapeVisual <$> visual f <*> f.withDefault "shapes" [] ids <*> f.optional "viewBox" id),
   ("InsetClip", fun f => .insetClip <$> insetClip f),
   ("CompositionViewBox", fun f => .viewBox <$> f.required "size" vector2),
   ("CompositionContainerShape", fun f =>
     .containerShape <$> placement f <*> f.withDefault "shapes" [] ids),
   ("CompositionSpriteShape", fun f => .spriteShape <$> placement f <*> sprite f),
   ("CompositionEllipseGeometry", fun f =>
     .ellipseGeometry <$> trim f <*> f.withDefault "center" ⟨0, 0⟩ vector2
       <*> f.required "radius" vector2),
   ("CompositionRectangleGeometry", fun f =>
     .rectangleGeometry <$> trim f <*> f.required "size" vector2),
   ("CompositionRoundedRectangleGeometry", fun f =>
     .roundedRectangleGeometry <$> trim f <*> f.required "size" vector2
       <*> f.required "cornerRadius" vector2),
   ("CompositionPathGeometry", fun f =>
     .pathGeometry <$> trim f <*> f.required "path" id),
   ("CompositionColorBrush", fun f => .colorBrush <$> f.required "color" color),
   ("LinearEasingFunction", fun _ => pure .linearEasing),
   ("CubicBezierEasingFunction", fun f =>
     .cubicBezierEasing <$> f.required "controlPoint1" vector2
       <*> f.required "controlPoint2" vector2),
   ("StepEasingFunction", fun f => .stepEasing <$> stepEasing f),
   ("ExpressionAnimation", fun f =>
     .expressionAnimation <$> parameters f
       <*> f.required "expression"
         (string |>.check (fun s => !s.isEmpty) "Expected an expression")),
   ("ColorKeyFrameAnimation", fun f =>
     .colorAnimation <$> parameters f <*> frames (keyFrame color) f),
   ("ScalarKeyFrameAnimation", fun f =>
     .scalarAnimation <$> parameters f <*> frames (keyFrame number) f),
   ("Vector2KeyFrameAnimation", fun f =>
     .vector2Animation <$> parameters f <*> frames (keyFrame vector2) f),
   ("Vector3KeyFrameAnimation", fun f =>
     .vector3Animation <$> parameters f <*> frames (keyFrame vector3) f),
   ("PathKeyFrameAnimation", fun f =>
     .pathAnimation <$> parameters f <*> frames pathKeyFrame f)]

def composed (variant : Fields → Reading (Variant String)) (f : Fields) :
    Reading (Object String) :=
  Object.composition <$> base f <*> variant f

def compositionTypes : List (String × (Fields → Reading (Object String))) :=
  (variantTypes.map fun t => (t.1, composed t.2)) ++
    [("CompositionPath", fun f => .path <$> description f <*> f.required "source" id)]

def commandKinds : List (String × (Fields → Reading PathCommand)) :=
  [("beginFigure", fun f => .beginFigure <$> f.required "startPoint" vector2),
   ("addLine", fun f => .addLine <$> f.required "endPoint" vector2),
   ("addCubicBezier", fun f =>
     .addCubicBezier <$> f.required "controlPoint1" vector2
       <*> f.required "controlPoint2" vector2 <*> f.required "endPoint" vector2),
   ("endFigure", fun f => .endFigure <$> f.required "figureLoop" named)]

def pathCommand : Reader PathCommand :=
  tagged "kind" commandKinds

def geometryTypes : List (String × (Fields → Reading (CanvasGeometry String))) :=
  [("Combination", fun f =>
     .combination <$> f.required "a" id <*> f.required "b" id
       <*> f.withDefault "matrix" {} matrix3x2 <*> f.required "combineMode" named),
   ("Ellipse", fun f =>
     .ellipse <$> f.required "x" number <*> f.required "y" number
       <*> f.required "radiusX" number <*> f.required "radiusY" number),
   ("Path", fun f =>
     .path <$> f.withDefault "filledRegionDetermination" .alternate named
       <*> f.required "commands" (list pathCommand)),
   ("RoundedRectangle", fun f =>
     .roundedRectangle <$> f.required "x" number <*> f.required "y" number
       <*> f.required "w" number <*> f.required "h" number
       <*> f.required "radiusX" number <*> f.required "radiusY" number)]

def outlined (geometry : Fields → Reading (CanvasGeometry String)) (f : Fields) :
    Reading (Object String) :=
  Object.canvas <$> description f <*> geometry f

def canvasTypes : List (String × (Fields → Reading (Object String))) :=
  geometryTypes.map fun t => (t.1, outlined t.2)

def read (type : String) : Reader (Object String) :=
  if type == "CanvasGeometry" then tagged "geometryType" canvasTypes
  else tagged "type" compositionTypes

end Record

end SceneCompiler
