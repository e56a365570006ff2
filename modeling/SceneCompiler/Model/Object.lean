import SceneCompiler.Model.Value

/-!
The objects of a scene. They refer to each other by values of a type `ρ`: an id in a document, a
place in a heap once the ids are resolved. Fields that may be left out have the defaults of a
freshly created object.
-/

namespace SceneCompiler

structure Description where
  comment : Option String := none
  short : Option String := none
  long : Option String := none
deriving DecidableEq, Repr

structure PropertyValues where
  scalars : List (String × Number) := []
  vector2s : List (String × Vector2) := []
deriving DecidableEq, Repr

def PropertyValues.isEmpty (values : PropertyValues) : Bool :=
  values.scalars.isEmpty && values.vector2s.isEmpty

/--
An animation bound to a property. The controller of the binding may hold values and run further
animations, on its property set and on itself.
-/
inductive Animator (ρ : Type) where
  | plain (property : String) (animation : ρ)
  | controlled (property : String) (animation : ρ) (values : PropertyValues)
      (onProperties onController : List (Animator ρ))
deriving Repr

namespace Animator

variable {ρ : Type}

def property : Animator ρ → String
  | .plain property _ => property
  | .controlled property _ _ _ _ => property

def animation : Animator ρ → ρ
  | .plain _ animation => animation
  | .controlled _ animation _ _ _ => animation

end Animator

structure Base (ρ : Type) where
  description : Description := {}
  values : PropertyValues := {}
  onProperties : List (Animator ρ) := []
  onObject : List (Animator ρ) := []
deriving Repr

def Base.animators {ρ : Type} (base : Base ρ) : List (Animator ρ) :=
  base.onProperties ++ base.onObject

structure Visual (ρ : Type) where
  centerPoint : Option Vector3 := none
  clip : Option ρ := none
  offset : Option Vector3 := none
  rotationAngleInDegrees : Option Number := none
  scale : Option Vector3 := none
  size : Option Vector2 := none
  children : List ρ := []
deriving DecidableEq, Repr

structure InsetClip where
  centerPoint : Vector2 := ⟨0, 0⟩
  scale : Vector2 := ⟨1, 1⟩
  leftInset : Number := 0
  rightInset : Number := 0
  topInset : Number := 0
  bottomInset : Number := 0
deriving DecidableEq, Repr

structure Placement where
  centerPoint : Option Vector2 := none
  offset : Option Vector2 := none
  rotationAngleInDegrees : Option Number := none
  scale : Option Vector2 := none
deriving DecidableEq, Repr

structure Sprite (ρ : Type) where
  fillBrush : Option ρ := none
  geometry : Option ρ := none
  isStrokeNonScaling : Bool := false
  strokeBrush : Option ρ := none
  strokeDashCap : StrokeCap := .flat
  strokeDashOffset : Number := 0
  strokeDashArray : List Number := []
  strokeEndCap : StrokeCap := .flat
  strokeLineJoin : LineJoin := .miter
  strokeStartCap : StrokeCap := .flat
  strokeMiterLimit : Number := 1
  strokeThickness : Number := 1
deriving DecidableEq, Repr

structure Trim where
  start : Number := 0
  stop : Number := 1
  offset : Number := 0
deriving DecidableEq, Repr

structure StepEasing where
  finalStep : Number := 1
  initialStep : Number := 0
  isFinalStepSingleFrame : Bool := false
  isInitialStepSingleFrame : Bool := false
  stepCount : Number := 1
deriving DecidableEq, Repr

structure Parameters (ρ : Type) where
  target : Option String := none
  references : List (String × ρ) := []
deriving DecidableEq, Repr

inductive FrameValue (α : Type) where
  | value (value : α)
  | expression (text : String)
deriving DecidableEq, Repr

structure KeyFrame (ρ α : Type) where
  progress : Number
  value : FrameValue α
  easing : ρ
deriving DecidableEq, Repr

/-- What every key frame animation has. The duration is in milliseconds. -/
structure Frames (ρ α : Type) where
  duration : Number
  keyFrames : List (KeyFrame ρ α) := []
deriving DecidableEq, Repr

inductive PathCommand where
  | beginFigure (startPoint : Vector2)
  | addLine (endPoint : Vector2)
  | addCubicBezier (controlPoint1 controlPoint2 endPoint : Vector2)
  | endFigure (figureLoop : FigureLoop)
deriving DecidableEq, Repr

inductive Variant (ρ : Type) where
  | containerVisual (visual : Visual ρ)
  | shapeVisual (visual : Visual ρ) (shapes : List ρ) (viewBox : Option ρ)
  | insetClip (clip : InsetClip)
  | viewBox (size : Vector2)
  | containerShape (placement : Placement) (shapes : List ρ)
  | spriteShape (placement : Placement) (sprite : Sprite ρ)
  | ellipseGeometry (trim : Trim) (center radius : Vector2)
  | rectangleGeometry (trim : Trim) (size : Vector2)
  | roundedRectangleGeometry (trim : Trim) (size cornerRadius : Vector2)
  | pathGeometry (trim : Trim) (path : ρ)
  | colorBrush (color : Color)
  | linearEasing
  | cubicBezierEasing (controlPoint1 controlPoint2 : Vector2)
  | stepEasing (steps : StepEasing)
  | expressionAnimation (parameters : Parameters ρ) (expression : String)
  | colorAnimation (parameters : Parameters ρ) (frames : Frames ρ Color)
  | scalarAnimation (parameters : Parameters ρ) (frames : Frames ρ Number)
  | vector2Animation (parameters : Parameters ρ) (frames : Frames ρ Vector2)
  | vector3Animation (parameters : Parameters ρ) (frames : Frames ρ Vector3)
  | pathAnimation (parameters : Parameters ρ) (frames : Frames ρ ρ)
deriving DecidableEq, Repr

inductive CanvasGeometry (ρ : Type) where
  | combination (a b : ρ) (matrix : Matrix3x2) (mode : CombineMode)
  | ellipse (x y radiusX radiusY : Number)
  | path (region : FilledRegion) (commands : List PathCommand)
  | roundedRectangle (x y w h radiusX radiusY : Number)
deriving DecidableEq, Repr

inductive Object (ρ : Type) where
  | composition (base : Base ρ) (variant : Variant ρ)
  | path (description : Description) (source : ρ)
  | canvas (description : Description) (geometry : CanvasGeometry ρ)
deriving Repr

def Variant.typeName {ρ : Type} : Variant ρ → String
  | .containerVisual _ => "ContainerVisual"
  | .shapeVisual _ _ _ => "ShapeVisual"
  | .insetClip _ => "InsetClip"
  | .viewBox _ => "CompositionViewBox"
  | .containerShape _ _ => "CompositionContainerShape"
  | .spriteShape _ _ => "CompositionSpriteShape"
  | .ellipseGeometry _ _ _ => "CompositionEllipseGeometry"
  | .rectangleGeometry _ _ => "CompositionRectangleGeometry"
  | .roundedRectangleGeometry _ _ _ => "CompositionRoundedRectangleGeometry"
  | .pathGeometry _ _ => "CompositionPathGeometry"
  | .colorBrush _ => "CompositionColorBrush"
  | .linearEasing => "LinearEasingFunction"
  | .cubicBezierEasing _ _ => "CubicBezierEasingFunction"
  | .stepEasing _ => "StepEasingFunction"
  | .expressionAnimation _ _ => "ExpressionAnimation"
  | .colorAnimation _ _ => "ColorKeyFrameAnimation"
  | .scalarAnimation _ _ => "ScalarKeyFrameAnimation"
  | .vector2Animation _ _ => "Vector2KeyFrameAnimation"
  | .vector3Animation _ _ => "Vector3KeyFrameAnimation"
  | .pathAnimation _ _ => "PathKeyFrameAnimation"

/-- Easing functions and expression animations start no animations. -/
def Variant.startsAnimations {ρ : Type} : Variant ρ → Bool
  | .linearEasing | .cubicBezierEasing _ _ | .stepEasing _ | .expressionAnimation _ _ => false
  | _ => true

namespace Object

variable {ρ : Type}

def typeName : Object ρ → String
  | .composition _ variant => variant.typeName
  | .path _ _ => "CompositionPath"
  | .canvas _ _ => "CanvasGeometry"

def kind : Object ρ → String
  | .composition _ _ => "CompositionObject"
  | o => o.typeName

def description : Object ρ → Description
  | .composition base _ => base.description
  | .path description _ => description
  | .canvas description _ => description

def isCompositionObject : Object ρ → Bool
  | .composition _ _ => true
  | _ => false

def isVisual : Object ρ → Bool
  | .composition _ (.containerVisual _) => true
  | .composition _ (.shapeVisual _ _ _) => true
  | _ => false

def isExpressionAnimation : Object ρ → Bool
  | .composition _ (.expressionAnimation _ _) => true
  | _ => false

def animators : Object ρ → List (Animator ρ)
  | .composition base _ => base.animators
  | _ => []

def values : Object ρ → PropertyValues
  | .composition base _ => base.values
  | _ => {}

end Object

end SceneCompiler
