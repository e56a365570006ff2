import SceneCompiler.Model.Draft
import SceneCompiler.Sketch.Conversion

/-!
The objects of a sketch, by the slots that hold them. A field has what its slot counts as; but
where there is a default, what is not of the type of the field is not the default.
-/

namespace SceneCompiler.Sketch

variable (s : Sketch)

/-! ### Values -/

def strictNumber : Slot → Number
  | .number n => n
  | _ => .nan

def strictVector2 (slot : Slot) : Vector2 :=
  let f := s.fields slot
  ⟨strictNumber (f.get "x"), strictNumber (f.get "y")⟩

/-- The member of an enumeration that is named, or else one that is not the default. -/
def toNamed {α : Type} [Named α] (other : α) (slot : Slot) : α :=
  (slot.toText?.bind Named.find?).getD other

def vector2? (slot : Slot) : Option Vector2 :=
  if slot.toFlag then some (s.toVector2 slot) else none

def vector3? (slot : Slot) : Option Vector3 :=
  if slot.toFlag then some (s.toVector3 slot) else none

def number? (slot : Slot) : Option Number :=
  slot.present?.map s.toNumber

def toColor (slot : Slot) : Color :=
  let f := s.fields slot
  ⟨s.toNumber (f.get "a"), s.toNumber (f.get "r"), s.toNumber (f.get "g"), s.toNumber (f.get "b")⟩

/-! ### Parts -/

def propertySet (f : Slots) : Slots :=
  s.fields (f.get "properties")

def animatorSlots (f : Slots) : List Slot × List Slot :=
  let own := s.items (f.get "animators")
  if f.get "type" == .text "CompositionPropertySet" then ([], own)
  else (s.items ((s.propertySet f).get "animators"), own)

def toValues (f : Slots) : PropertyValues :=
  let set := s.propertySet f
  ⟨(s.entries (set.get "scalarProperties")).map fun e => (e.1, s.toNumber e.2),
    (s.entries (set.get "vector2Properties")).map fun e => (e.1, s.toVector2 e.2)⟩

def hasProperties (f : Slots) : Bool :=
  !(s.toValues f).isEmpty

def toAnimators : (fuel : Nat) → List Slot → List (Animator Slot)
  | 0, _ => []
  | fuel + 1, slots =>
    slots.map fun slot =>
      let f := s.fields slot
      let property := s.display (f.get "animatedProperty")
      let animation := f.get "animation"
      let controller := f.get "controller"
      if controller.toFlag then
        let c := s.fields controller
        let (onProperties, own) := s.animatorSlots c
        .controlled property animation (s.toValues c) (toAnimators fuel onProperties)
          (toAnimators fuel own)
      else .plain property animation

/-- The animators among slots in the order in which they are bound: each before those of its
controller. -/
def animatorOrder : (fuel : Nat) → List Slot → List Slots
  | 0, _ => []
  | fuel + 1, slots =>
    slots.flatMap fun slot =>
      let f := s.fields slot
      let controller := f.get "controller"
      f :: if controller.toFlag then
        let (onProperties, own) := s.animatorSlots (s.fields controller)
        animatorOrder fuel onProperties ++ animatorOrder fuel own
      else []

def toDescription (f : Slots) : Description :=
  ⟨(f.get "comment").toText?, (f.get "shortDescription").toText?,
    (f.get "longDescription").toText?⟩

def toBase (f : Slots) : Base Slot :=
  let (onProperties, own) := s.animatorSlots f
  ⟨toDescription f, s.toValues f, s.toAnimators s.cells.size onProperties,
    s.toAnimators s.cells.size own⟩

def isAnimated (f : Slots) : Bool :=
  !(s.toBase f).animators.isEmpty

def toVisual (f : Slots) : Visual Slot where
  centerPoint := s.vector3? (f.get "centerPoint")
  clip := (f.get "clip").present?
  offset := s.vector3? (f.get "offset")
  rotationAngleInDegrees := s.number? (f.get "rotationAngleInDegrees")
  scale := s.vector3? (f.get "scale")
  size := s.vector2? (f.get "size")
  children := s.items (f.get "children")

def toClip (f : Slots) : InsetClip where
  centerPoint := s.strictVector2 (f.get "centerPoint")
  scale := s.strictVector2 (f.get "scale")
  leftInset := strictNumber (f.get "leftInset")
  rightInset := strictNumber (f.get "rightInset")
  topInset := strictNumber (f.get "topInset")
  bottomInset := strictNumber (f.get "bottomInset")

def toPlacement (f : Slots) : Placement where
  centerPoint := s.vector2? (f.get "centerPoint")
  offset := s.vector2? (f.get "offset")
  rotationAngleInDegrees := s.number? (f.get "rotationAngleInDegrees")
  scale := s.vector2? (f.get "scale")

def toSprite (f : Slots) : Sprite Slot where
  fillBrush := (f.get "fillBrush").present?
  geometry := (f.get "geometry").present?
  isStrokeNonScaling := (f.get "isStrokeNonScaling").toFlag
  strokeBrush := (f.get "strokeBrush").present?
  strokeDashCap := toNamed .square (f.get "strokeDashCap")
  strokeDashOffset := strictNumber (f.get "strokeDashOffset")
  strokeDashArray := (s.listItems (f.get "strokeDashArray")).map s.toNumber
  strokeEndCap := toNamed .square (f.get "strokeEndCap")
  strokeLineJoin := toNamed .bevel (f.get "strokeLineJoin")
  strokeStartCap := toNamed .square (f.get "strokeStartCap")
  strokeMiterLimit := strictNumber (f.get "strokeMiterLimit")
  strokeThickness := strictNumber (f.get "strokeThickness")

def toTrim (f : Slots) : Trim :=
  ⟨strictNumber (f.get "trimStart"), strictNumber (f.get "trimEnd"),
    strictNumber (f.get "trimOffset")⟩

def toSteps (f : Slots) : StepEasing where
  finalStep := strictNumber (f.get "finalStep")
  initialStep := strictNumber (f.get "initialStep")
  isFinalStepSingleFrame := (f.get "isFinalStepSingleFrame").toFlag
  isInitialStepSingleFrame := (f.get "isInitialStepSingleFrame").toFlag
  stepCount := strictNumber (f.get "stepCount")

def toParameters (f : Slots) : Parameters Slot :=
  ⟨(f.get "target").toText?, s.values (f.get "referenceParameters")⟩

def hasValue (frame : Slots) : Bool :=
  frame.get "kind" == .text "value"

def toFrame {α : Type} (value : Slot → Option α) (slot : Slot) : KeyFrame Slot α :=
  let k := s.fields slot
  let held := if hasValue k then value (k.get "value") else none
  ⟨s.toNumber (k.get "progress"),
    (held.map .value).getD (.expression (k.get "expression").toText), k.get "easing"⟩

def toFrames {α : Type} (value : Slot → Option α) (f : Slots) : Frames Slot α :=
  ⟨strictNumber (f.get "duration"), (s.items (f.get "keyFrames")).map (s.toFrame value)⟩

def toPath? (slot : Slot) : Option Slot :=
  if slot.toFlag then some slot else none

def toCommand? (slot : Slot) : Option PathCommand :=
  let f := s.fields slot
  let point (name : String) : Vector2 := s.toVector2 (f.get name)
  match (f.get "kind").toText with
  | "beginFigure" => some (.beginFigure (point "startPoint"))
  | "addLine" => some (.addLine (point "endPoint"))
  | "addCubicBezier" =>
    some (.addCubicBezier (point "controlPoint1") (point "controlPoint2") (point "endPoint"))
  | "endFigure" => some (.endFigure (toNamed .opened (f.get "figureLoop")))
  | _ => none

/-! ### Objects -/

def toVariant? (f : Slots) : String → Option (Variant Slot)
  | "ContainerVisual" => some (.containerVisual (s.toVisual f))
  | "ShapeVisual" =>
    some (.shapeVisual (s.toVisual f) (s.items (f.get "shapes")) (f.get "viewBox").present?)
  | "InsetClip" => some (.insetClip (s.toClip f))
  | "CompositionViewBox" => some (.viewBox (vector "size"))
  | "CompositionContainerShape" =>
    some (.containerShape (s.toPlacement f) (s.items (f.get "shapes")))
  | "CompositionSpriteShape" => some (.spriteShape (s.toPlacement f) (s.toSprite f))
  | "CompositionEllipseGeometry" =>
    some (.ellipseGeometry (toTrim f) (s.strictVector2 (f.get "center")) (vector "radius"))
  | "CompositionRectangleGeometry" => some (.rectangleGeometry (toTrim f) (vector "size"))
  | "CompositionRoundedRectangleGeometry" =>
    some (.roundedRectangleGeometry (toTrim f) (vector "size") (vector "cornerRadius"))
  | "CompositionPathGeometry" => some (.pathGeometry (toTrim f) (f.get "path"))
  | "CompositionColorBrush" => some (.colorBrush (s.toColor (f.get "color")))
  | "LinearEasingFunction" => some .linearEasing
  | "CubicBezierEasingFunction" =>
    some (.cubicBezierEasing (vector "controlPoint1") (vector "controlPoint2"))
  | "StepEasingFunction" => some (.stepEasing (toSteps f))
  | "ExpressionAnimation" =>
    some (.expressionAnimation (s.toParameters f) (f.get "expression").toText)
  | "ColorKeyFrameAnimation" =>
    some (.colorAnimation (s.toParameters f) (s.toFrames (fun v => some (s.toColor v)) f))
  | "ScalarKeyFrameAnimation" =>
    some (.scalarAnimation (s.toParameters f) (s.toFrames (fun v => some (s.toNumber v)) f))
  | "Vector2KeyFrameAnimation" =>
    some (.vector2Animation (s.toParameters f) (s.toFrames (fun v => some (s.toVector2 v)) f))
  | "Vector3KeyFrameAnimation" =>
    some (.vector3Animation (s.toParameters f) (s.toFrames (fun v => some (s.toVector3 v)) f))
  | "PathKeyFrameAnimation" => some (.pathAnimation (s.toParameters f) (s.toFrames toPath? f))
  | _ => none
where
  vector (name : String) : Vector2 := s.toVector2 (f.get name)

def toGeometry? (f : Slots) : String → Option (CanvasGeometry Slot)
  | "Combination" =>
    some (.combination (f.get "a") (f.get "b") (s.toMatrix (f.get "matrix"))
      (toNamed .union (f.get "combineMode")))
  | "Ellipse" => some (.ellipse (n "x") (n "y") (n "radiusX") (n "radiusY"))
  | "Path" =>
    some (.path (toNamed .winding (f.get "filledRegionDetermination"))
      ((s.items (f.get "commands")).filterMap s.toCommand?))
  | "RoundedRectangle" =>
    some (.roundedRectangle (n "x") (n "y") (n "w") (n "h") (n "radiusX") (n "radiusY"))
  | _ => none
where
  n (name : String) : Number := s.toNumber (f.get name)

/-- The object that a slot holds. A plain value is no object. -/
def draft (slot : Slot) : Draft Slot :=
  let f := s.fields slot
  let type := (f.get "type").toText
  let typeName := s.display (f.get "type")
  if type == "CompositionPath" then .known (.path (toDescription f) (f.get "source"))
  else if type == "CanvasGeometry" then
    match s.toGeometry? f (f.get "geometryType").toText with
    | some geometry => .known (.canvas (toDescription f) geometry)
    | none => .unknown "canvas geometry" (s.tag slot) typeName
  else
    match s.toVariant? f type with
    | some variant => .known (.composition (s.toBase f) variant)
    | none => .unknown "composition object" (s.tag slot) typeName

end SceneCompiler.Sketch
