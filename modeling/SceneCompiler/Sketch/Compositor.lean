import SceneCompiler.Sketch.Conversion

/-!
The compositor: objects as it creates them, with every field at its default.
-/

namespace SceneCompiler.Compositor

def composition (v : Variant String) : Attributes :=
  (Object.composition {} v).fields .ref

def canvas (g : CanvasGeometry String) : Attributes :=
  (Object.canvas {} g).fields .ref

def propertySet : Attributes :=
  ({} : PropertyValues).fields []

def controller : Attributes :=
  [("animators", .list []), ("properties", .record propertySet),
   ("type", .text "AnimationController")]

def zero : Vector2 := ⟨0, 0⟩

def prototype? : String → Option (Attributes × List String)
  | "createPropertySet" => some (propertySet, [])
  | "createAnimationController" => some (controller, [])
  | "createContainerVisual" => some (composition (.containerVisual {}), [])
  | "createShapeVisual" => some (composition (.shapeVisual {} [] none), [])
  | "createInsetClip" => some (composition (.insetClip {}), [])
  | "createViewBox" => some (composition (.viewBox zero), ["size"])
  | "createContainerShape" => some (composition (.containerShape {} []), [])
  | "createSpriteShape" => some (composition (.spriteShape {} {}), [])
  | "createEllipseGeometry" => some (composition (.ellipseGeometry {} zero zero), ["radius"])
  | "createRectangleGeometry" => some (composition (.rectangleGeometry {} zero), ["size"])
  | "createRoundedRectangleGeometry" =>
    some (composition (.roundedRectangleGeometry {} zero zero), ["size", "cornerRadius"])
  | "createPathGeometry" => some (composition (.pathGeometry {} ""), ["path"])
  | "createColorBrush" => some (composition (.colorBrush ⟨0, 0, 0, 0⟩), ["color"])
  | "createLinearEasingFunction" => some (composition .linearEasing, [])
  | "createCubicBezierEasingFunction" =>
    some (composition (.cubicBezierEasing zero zero), ["controlPoint1", "controlPoint2"])
  | "createStepEasingFunction" => some (composition (.stepEasing {}), [])
  | "createExpressionAnimation" => some (composition (.expressionAnimation {} ""), ["expression"])
  | "createColorKeyFrameAnimation" => some (composition (.colorAnimation {} ⟨0, []⟩), ["duration"])
  | "createScalarKeyFrameAnimation" =>
    some (composition (.scalarAnimation {} ⟨0, []⟩), ["duration"])
  | "createVector2KeyFrameAnimation" =>
    some (composition (.vector2Animation {} ⟨0, []⟩), ["duration"])
  | "createVector3KeyFrameAnimation" =>
    some (composition (.vector3Animation {} ⟨0, []⟩), ["duration"])
  | "createPathKeyFrameAnimation" => some (composition (.pathAnimation {} ⟨0, []⟩), ["duration"])
  | "createPath" => some ((Object.path {} "").fields .ref, ["source"])
  | "createCanvasEllipse" => some (canvas (.ellipse 0 0 0 0), ["x", "y", "radiusX", "radiusY"])
  | "createCanvasRoundedRectangle" =>
    some (canvas (.roundedRectangle 0 0 0 0 0 0), ["x", "y", "w", "h", "radiusX", "radiusY"])
  | "createCanvasPath" =>
    some (canvas (.path .alternate []), ["filledRegionDetermination", "commands"])
  | "createCanvasCombination" =>
    some (canvas (.combination "" "" {} .union), ["a", "b", "combineMode", "matrix"])
  | _ => none

def closedMethods : List String :=
  ["createAnimationController", "createLinearEasingFunction", "createCubicBezierEasingFunction",
    "createPath", "createCanvasEllipse", "createCanvasRoundedRectangle", "createCanvasPath",
    "createCanvasCombination"]

def takesFields (method : String) : Bool :=
  !closedMethods.contains method

def apply (fields : Slots) : List String → List Slot → Slots
  | [], _ => fields
  | name :: names, slots =>
    let slot := slots.head?.getD .absent
    apply (if name == "matrix" && slot == .absent then fields else fields.set name slot) names
      slots.tail

/-- Adds further fields to those of an object. The type stays, after all that has no place before
it. -/
def extend (fields further : Slots) : Slots :=
  let others : Slots := fields.filter fun f => f.1 != "type"
  (others.setAll further).set "type" (fields.get "type")

def create? (s : Sketch) (name method : String) (arguments : List Datum) : Option Sketch :=
  (prototype? method).map fun (fields, names) =>
    let (slots, s) := s.storeFields fields
    let (arguments, s) := s.storeAll arguments
    let slots := apply slots names arguments
    let slots :=
      if takesFields method then extend slots (s.spread (arguments[names.length]?.getD .absent))
      else slots
    let (slot, s) := s.allocate (.record slots)
    s.bind name slot

end SceneCompiler.Compositor
