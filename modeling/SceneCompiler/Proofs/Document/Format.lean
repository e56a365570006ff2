import Mathlib.Data.List.Forall2
import Mathlib.Tactic.MkIffOfInductiveProp
import SceneCompiler.Document

/-!
# The document format

What a scene document says, member by member: which JSON stands for which value, and which value a
member has that is left out.  Ids are names here, so a record describes an object that refers to
others by name.  Nothing is said about the order in which members are looked at or about issues.
-/

namespace SceneCompiler

abbrev Format (α : Type) := Json → α → Prop

abbrev Members := List (String × Json)

namespace Members

variable {α : Type} (ms : Members)

def Required (key : String) (F : Format α) (a : α) : Prop :=
  ∃ j, ms.lookup key = some j ∧ F j a

def Optional (key : String) (F : Format α) : Option α → Prop
  | some a => Required ms key F a
  | none => ms.lookup key = none

def Defaulted (key : String) (default : α) (F : Format α) (a : α) : Prop :=
  Required ms key F a ∨ ms.lookup key = none ∧ a = default

end Members

open Members

def PathCommand.kind : PathCommand → String
  | .beginFigure _ => "beginFigure"
  | .addLine _ => "addLine"
  | .addCubicBezier _ _ _ => "addCubicBezier"
  | .endFigure _ => "endFigure"

def CanvasGeometry.typeName {ρ : Type} : CanvasGeometry ρ → String
  | .combination _ _ _ _ => "Combination"
  | .ellipse _ _ _ _ => "Ellipse"
  | .path _ _ => "Path"
  | .roundedRectangle _ _ _ _ _ _ => "RoundedRectangle"

namespace Format

variable {α : Type}

def string : Format String := fun j s => j = .string s

def number : Format Number := fun j n => j = .number n

def bool : Format Bool := fun j b => j = .bool b

def checked (test : α → Bool) (F : Format α) : Format α := fun j a => F j a ∧ test a = true

def text : Format String := checked (fun s => !s.isEmpty) string

def id : Format String := text

def nonnegative : Format Number := checked (Number.le 0) number

def positive : Format Number := checked (Number.lt 0) number

def integer : Format Number := checked Number.isInteger number

def progress : Format Number := checked (fun n => Number.le 0 n && n.le 1) number

def named [Named α] : Format α := fun j a => j = .string (Named.name a)

def list (F : Format α) : Format (List α) := fun j as =>
  ∃ items, j = .array items ∧ List.Forall₂ F items as

def entry (F : Format α) (m : String × Json) (e : String × α) : Prop :=
  m.1 = e.1 ∧ F m.2 e.2

/-- A map by key.  A member `__proto__` has to be of the format too, and is no entry. -/
def map (F : Format α) : Format (List (String × α)) := fun j entries =>
  ∃ ms all, j = .object ms ∧ List.Forall₂ (entry F) ms all ∧
    entries = all.filter fun e => e.1 != "__proto__"

def object (P : Members → α → Prop) : Format α := fun j a => ∃ ms, j = .object ms ∧ P ms a

def vector2 : Format Vector2 := object fun ms v =>
  Required ms "x" number v.x ∧ Required ms "y" number v.y

def vector3 : Format Vector3 := object fun ms v =>
  Required ms "x" number v.x ∧ Required ms "y" number v.y ∧ Required ms "z" number v.z

def matrix3x2 : Format Matrix3x2 := object fun ms m =>
  Required ms "m11" number m.m11 ∧ Required ms "m12" number m.m12 ∧
    Required ms "m21" number m.m21 ∧ Required ms "m22" number m.m22 ∧
    Required ms "m31" number m.m31 ∧ Required ms "m32" number m.m32

def channel (high low : Char) (n : Number) : Prop :=
  ∃ h l, Color.hexDigit? high.toNat = some h ∧ Color.hexDigit? low.toNat = some l ∧
    n = Number.ofNat (16 * h + l)

def color : Format Color := fun j c =>
  ∃ a₁ a₂ r₁ r₂ g₁ g₂ b₁ b₂, j = .string (String.ofList ['#', a₁, a₂, r₁, r₂, g₁, g₂, b₁, b₂]) ∧
    channel a₁ a₂ c.a ∧ channel r₁ r₂ c.r ∧ channel g₁ g₂ c.g ∧ channel b₁ b₂ c.b

def DescribesCommand (ms : Members) : PathCommand → Prop
  | .beginFigure startPoint => Required ms "startPoint" vector2 startPoint
  | .addLine endPoint => Required ms "endPoint" vector2 endPoint
  | .addCubicBezier controlPoint1 controlPoint2 endPoint =>
    Required ms "controlPoint1" vector2 controlPoint1 ∧
      Required ms "controlPoint2" vector2 controlPoint2 ∧ Required ms "endPoint" vector2 endPoint
  | .endFigure figureLoop => Required ms "figureLoop" named figureLoop

def pathCommand : Format PathCommand := object fun ms command =>
  Required ms "kind" string command.kind ∧ DescribesCommand ms command

def frameValue (F : Format α) (ms : Members) : FrameValue α → Prop
  | .value v => Required ms "value" F v ∧ ms.lookup "expression" = none
  | .expression text => ms.lookup "value" = none ∧ Required ms "expression" string text

def keyFrame (F : Format α) : Format (KeyFrame String α) := object fun ms frame =>
  Required ms "progress" progress frame.progress ∧ frameValue F ms frame.value ∧
    Required ms "easing" id frame.easing

def pathKeyFrame : Format (KeyFrame String String) := object fun ms frame =>
  Required ms "progress" progress frame.progress ∧
    (∃ path, frame.value = .value path ∧ Required ms "value" id path) ∧
    Required ms "easing" id frame.easing

end Format

/-! ## Animators -/

def DescribesValues (ms : Members) (values : PropertyValues) : Prop :=
  Defaulted ms "scalars" [] (.map .number) values.scalars ∧
    Defaulted ms "vector2s" [] (.map .vector2) values.vector2s

def Members.Items {α : Type} (ms : Members) (key : String) (as : List α) (P : List Json → Prop) :
    Prop :=
  (∃ items, ms.lookup key = some (.array items) ∧ P items) ∨ ms.lookup key = none ∧ as = []

/-- A property set with its animators, or nothing where both are empty. -/
def Members.PropertySet (ms : Members) (values : PropertyValues) (as : List (Animator String))
    (P : List Json → Prop) : Prop :=
  (∃ ps, ms.lookup "properties" = some (.object ps) ∧ DescribesValues ps values ∧
      Items ps "animators" as P) ∨
    ms.lookup "properties" = none ∧ values = {} ∧ as = []

mutual
def IsAnimator : Json → Animator String → Prop
  | .object ms, .plain property animation =>
    Required ms "property" .text property ∧
      Required ms "animation" .id animation ∧ ms.lookup "controller" = none
  | .object ms, .controlled property animation values onProperties onController =>
    Required ms "property" .text property ∧
      Required ms "animation" .id animation ∧
      ∃ cs, ms.lookup "controller" = some (.object cs) ∧
        PropertySet cs values onProperties (fun items => AreAnimators items onProperties) ∧
        Items cs "animators" onController fun items => AreAnimators items onController
  | _, _ => False
def AreAnimators : List Json → List (Animator String) → Prop
  | [], [] => True
  | j :: js, a :: as => IsAnimator j a ∧ AreAnimators js as
  | _, _ => False
end

/-! ## Records -/

@[mk_iff]
structure DescribesDescription (ms : Members) (d : Description) : Prop where
  comment : Optional ms "comment" .string d.comment
  short : Optional ms "shortDescription" .string d.short
  long : Optional ms "longDescription" .string d.long

@[mk_iff]
structure DescribesBase (ms : Members) (b : Base String) : Prop where
  description : DescribesDescription ms b.description
  properties : PropertySet ms b.values b.onProperties fun items => AreAnimators items b.onProperties
  animators : Items ms "animators" b.onObject fun items => AreAnimators items b.onObject

@[mk_iff]
structure DescribesVisual (ms : Members) (v : Visual String) : Prop where
  centerPoint : Optional ms "centerPoint" .vector3 v.centerPoint
  clip : Optional ms "clip" .id v.clip
  offset : Optional ms "offset" .vector3 v.offset
  rotationAngleInDegrees : Optional ms "rotationAngleInDegrees" .number v.rotationAngleInDegrees
  scale : Optional ms "scale" .vector3 v.scale
  size : Optional ms "size" .vector2 v.size
  children : Defaulted ms "children" [] (.list .id) v.children

@[mk_iff]
structure DescribesInsetClip (ms : Members) (c : InsetClip) : Prop where
  centerPoint : Defaulted ms "centerPoint" ⟨0, 0⟩ .vector2 c.centerPoint
  scale : Defaulted ms "scale" ⟨1, 1⟩ .vector2 c.scale
  leftInset : Defaulted ms "leftInset" 0 .number c.leftInset
  rightInset : Defaulted ms "rightInset" 0 .number c.rightInset
  topInset : Defaulted ms "topInset" 0 .number c.topInset
  bottomInset : Defaulted ms "bottomInset" 0 .number c.bottomInset

@[mk_iff]
structure DescribesPlacement (ms : Members) (p : Placement) : Prop where
  centerPoint : Optional ms "centerPoint" .vector2 p.centerPoint
  offset : Optional ms "offset" .vector2 p.offset
  rotationAngleInDegrees : Optional ms "rotationAngleInDegrees" .number p.rotationAngleInDegrees
  scale : Optional ms "scale" .vector2 p.scale

@[mk_iff]
structure DescribesSprite (ms : Members) (s : Sprite String) : Prop where
  fillBrush : Optional ms "fillBrush" .id s.fillBrush
  geometry : Optional ms "geometry" .id s.geometry
  isStrokeNonScaling : Defaulted ms "isStrokeNonScaling" false .bool s.isStrokeNonScaling
  strokeBrush : Optional ms "strokeBrush" .id s.strokeBrush
  strokeDashCap : Defaulted ms "strokeDashCap" .flat .named s.strokeDashCap
  strokeDashOffset : Defaulted ms "strokeDashOffset" 0 .number s.strokeDashOffset
  strokeDashArray : Defaulted ms "strokeDashArray" [] (.list .number) s.strokeDashArray
  strokeEndCap : Defaulted ms "strokeEndCap" .flat .named s.strokeEndCap
  strokeLineJoin : Defaulted ms "strokeLineJoin" .miter .named s.strokeLineJoin
  strokeStartCap : Defaulted ms "strokeStartCap" .flat .named s.strokeStartCap
  strokeMiterLimit : Defaulted ms "strokeMiterLimit" 1 .number s.strokeMiterLimit
  strokeThickness : Defaulted ms "strokeThickness" 1 .number s.strokeThickness

@[mk_iff]
structure DescribesTrim (ms : Members) (t : Trim) : Prop where
  start : Defaulted ms "trimStart" 0 .number t.start
  stop : Defaulted ms "trimEnd" 1 .number t.stop
  offset : Defaulted ms "trimOffset" 0 .number t.offset

@[mk_iff]
structure DescribesStepEasing (ms : Members) (e : StepEasing) : Prop where
  finalStep : Defaulted ms "finalStep" 1 .integer e.finalStep
  initialStep : Defaulted ms "initialStep" 0 .integer e.initialStep
  isFinalStepSingleFrame :
    Defaulted ms "isFinalStepSingleFrame" false .bool e.isFinalStepSingleFrame
  isInitialStepSingleFrame :
    Defaulted ms "isInitialStepSingleFrame" false .bool e.isInitialStepSingleFrame
  stepCount : Defaulted ms "stepCount" 1 .integer e.stepCount

@[mk_iff]
structure DescribesParameters (ms : Members) (p : Parameters String) : Prop where
  target : Optional ms "target" .string p.target
  references : Defaulted ms "referenceParameters" [] (.map .id) p.references

@[mk_iff]
structure DescribesFrames {α : Type} (F : Format (KeyFrame String α)) (ms : Members)
    (f : Frames String α) : Prop where
  duration : Required ms "duration" .nonnegative f.duration
  keyFrames : Defaulted ms "keyFrames" [] (.list F) f.keyFrames

def DescribesVariant (ms : Members) : Variant String → Prop
  | .containerVisual v => DescribesVisual ms v
  | .shapeVisual v shapes box =>
    DescribesVisual ms v ∧ Defaulted ms "shapes" [] (.list .id) shapes ∧
      Optional ms "viewBox" .id box
  | .insetClip c => DescribesInsetClip ms c
  | .viewBox size => Required ms "size" .vector2 size
  | .containerShape p shapes =>
    DescribesPlacement ms p ∧ Defaulted ms "shapes" [] (.list .id) shapes
  | .spriteShape p s => DescribesPlacement ms p ∧ DescribesSprite ms s
  | .ellipseGeometry t center radius =>
    DescribesTrim ms t ∧ Defaulted ms "center" ⟨0, 0⟩ .vector2 center ∧
      Required ms "radius" .vector2 radius
  | .rectangleGeometry t size => DescribesTrim ms t ∧ Required ms "size" .vector2 size
  | .roundedRectangleGeometry t size cornerRadius =>
    DescribesTrim ms t ∧ Required ms "size" .vector2 size ∧
      Required ms "cornerRadius" .vector2 cornerRadius
  | .pathGeometry t path => DescribesTrim ms t ∧ Required ms "path" .id path
  | .colorBrush color => Required ms "color" .color color
  | .linearEasing => True
  | .cubicBezierEasing controlPoint1 controlPoint2 =>
    Required ms "controlPoint1" .vector2 controlPoint1 ∧
      Required ms "controlPoint2" .vector2 controlPoint2
  | .stepEasing e => DescribesStepEasing ms e
  | .expressionAnimation p expression =>
    DescribesParameters ms p ∧
      Required ms "expression" .text expression
  | .colorAnimation p f => DescribesParameters ms p ∧ DescribesFrames (.keyFrame .color) ms f
  | .scalarAnimation p f => DescribesParameters ms p ∧ DescribesFrames (.keyFrame .number) ms f
  | .vector2Animation p f => DescribesParameters ms p ∧ DescribesFrames (.keyFrame .vector2) ms f
  | .vector3Animation p f => DescribesParameters ms p ∧ DescribesFrames (.keyFrame .vector3) ms f
  | .pathAnimation p f => DescribesParameters ms p ∧ DescribesFrames .pathKeyFrame ms f

def DescribesGeometry (ms : Members) : CanvasGeometry String → Prop
  | .combination a b matrix mode =>
    Required ms "a" .id a ∧ Required ms "b" .id b ∧
      Defaulted ms "matrix" ⟨1, 0, 0, 1, 0, 0⟩ .matrix3x2 matrix ∧
      Required ms "combineMode" .named mode
  | .ellipse x y radiusX radiusY =>
    Required ms "x" .number x ∧ Required ms "y" .number y ∧
      Required ms "radiusX" .number radiusX ∧ Required ms "radiusY" .number radiusY
  | .path region commands =>
    Defaulted ms "filledRegionDetermination" .alternate .named region ∧
      Required ms "commands" (.list .pathCommand) commands
  | .roundedRectangle x y w h radiusX radiusY =>
    Required ms "x" .number x ∧ Required ms "y" .number y ∧ Required ms "w" .number w ∧
      Required ms "h" .number h ∧ Required ms "radiusX" .number radiusX ∧
      Required ms "radiusY" .number radiusY

def DescribesContent (ms : Members) : Object String → Prop
  | .composition base variant => DescribesBase ms base ∧ DescribesVariant ms variant
  | .path description source =>
    DescribesDescription ms description ∧ Required ms "source" .id source
  | .canvas description geometry =>
    DescribesDescription ms description ∧
      Required ms "geometryType" .string geometry.typeName ∧ DescribesGeometry ms geometry

def DescribesObject (ms : Members) (o : Object String) : Prop :=
  Required ms "type" .string o.typeName ∧ DescribesContent ms o

namespace Format

def typed : Format String := object fun ms type => Required ms "type" string type

def record : Format (Object String) := object DescribesObject

end Format

@[mk_iff]
structure DescribesDocument (ms entries : Members) (d : Document) : Prop where
  className : Optional ms "className" (.checked isClassName .string) d.className
  width : Required ms "width" .positive d.width
  height : Required ms "height" .positive d.height
  durationMs : Required ms "durationMs" .nonnegative d.durationMs
  root : Required ms "root" .id d.root
  objects : ms.lookup "objects" = some (.object entries)
  typed : ∀ m ∈ entries, ∃ type, Format.typed m.2 type
  records : List.Forall₂ (Format.entry Format.record)
    (entries.filter fun m => m.1 != "__proto__") d.records

def Describes (json : Option Json) (d : Document) : Prop :=
  ∃ ms entries, json = some (.object ms) ∧ DescribesDocument ms entries d

end SceneCompiler
