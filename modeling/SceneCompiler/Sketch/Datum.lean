import SceneCompiler.Model.Object

/-!
Values as they are given and shown: objects as named fields.
-/

namespace SceneCompiler

/-- A value of a field. An absent one counts as no field. -/
inductive Datum where
  | absent
  | null
  | flag (value : Bool)
  | number (value : Number)
  | integer (value : Int)
  | text (value : String)
  | list (items : List Datum)
  | record (fields : List (String × Datum))
  | table (entries : List (String × Datum))
  | ref (name : String)
deriving Repr, Inhabited

abbrev Attributes := List (String × Datum)

namespace Datum

def ofVector2 (v : Vector2) : Datum :=
  .record [("x", .number v.x), ("y", .number v.y)]

def ofVector3 (v : Vector3) : Datum :=
  .record [("x", .number v.x), ("y", .number v.y), ("z", .number v.z)]

def ofColor (c : Color) : Datum :=
  .record [("a", .number c.a), ("r", .number c.r), ("g", .number c.g), ("b", .number c.b)]

def ofMatrix (m : Matrix3x2) : Datum :=
  .record [("m11", .number m.m11), ("m12", .number m.m12), ("m21", .number m.m21),
    ("m22", .number m.m22), ("m31", .number m.m31), ("m32", .number m.m32)]

def ofNamed {α : Type} [Named α] (a : α) : Datum :=
  .text (Named.name a)

end Datum

/-- The field of a property, or the method of a call: the name begins with a small letter. -/
def fieldOf (property : String) : String :=
  match property.toList with
  | [] => ""
  | c :: rest => String.ofList (c.toLower :: rest)

def optionalField {α : Type} (name : String) (f : α → Datum) (a : Option α) : Attributes :=
  a.toList.map fun a => (name, f a)

variable {ρ : Type} (ref : ρ → Datum)

def PropertyValues.fields (values : PropertyValues) (animators : List Datum) : Attributes :=
  [("animators", .list animators),
   ("scalarProperties", .table (values.scalars.map fun s => (s.1, .number s.2))),
   ("vector2Properties", .table (values.vector2s.map fun s => (s.1, .ofVector2 s.2))),
   ("type", .text "CompositionPropertySet")]

mutual
def Animator.datum : Animator ρ → Datum
  | .plain property animation =>
    .record [("animatedProperty", .text property), ("animation", ref animation)]
  | .controlled property animation values onProperties onController =>
    .record [("animatedProperty", .text property), ("animation", ref animation),
      ("controller", .record [("animators", .list (animatorData onController)),
        ("properties", .record (values.fields (animatorData onProperties))),
        ("type", .text "AnimationController")])]
def animatorData : List (Animator ρ) → List Datum
  | [] => []
  | a :: rest => a.datum :: animatorData rest
end

def Description.fields (d : Description) : Attributes :=
  optionalField "comment" .text d.comment ++ optionalField "shortDescription" .text d.short ++
  optionalField "longDescription" .text d.long

def Visual.fields (v : Visual ρ) : Attributes :=
  optionalField "centerPoint" .ofVector3 v.centerPoint ++
  optionalField "clip" ref v.clip ++
  optionalField "offset" .ofVector3 v.offset ++
  optionalField "rotationAngleInDegrees" .number v.rotationAngleInDegrees ++
  optionalField "scale" .ofVector3 v.scale ++ optionalField "size" .ofVector2 v.size ++
  [("children", .list (v.children.map ref))]

def Placement.fields (p : Placement) : Attributes :=
  optionalField "centerPoint" .ofVector2 p.centerPoint ++
  optionalField "offset" .ofVector2 p.offset ++
  optionalField "rotationAngleInDegrees" .number p.rotationAngleInDegrees ++
  optionalField "scale" .ofVector2 p.scale

def Sprite.fields (s : Sprite ρ) : Attributes :=
  optionalField "fillBrush" ref s.fillBrush ++ optionalField "geometry" ref s.geometry ++
  optionalField "strokeBrush" ref s.strokeBrush ++
  [("isStrokeNonScaling", .flag s.isStrokeNonScaling),
   ("strokeDashCap", .ofNamed s.strokeDashCap),
   ("strokeDashOffset", .number s.strokeDashOffset),
   ("strokeDashArray", .list (s.strokeDashArray.map .number)),
   ("strokeEndCap", .ofNamed s.strokeEndCap),
   ("strokeLineJoin", .ofNamed s.strokeLineJoin),
   ("strokeStartCap", .ofNamed s.strokeStartCap),
   ("strokeMiterLimit", .number s.strokeMiterLimit),
   ("strokeThickness", .number s.strokeThickness)]

def InsetClip.fields (c : InsetClip) : Attributes :=
  [("centerPoint", .ofVector2 c.centerPoint), ("scale", .ofVector2 c.scale),
   ("leftInset", .number c.leftInset), ("rightInset", .number c.rightInset),
   ("topInset", .number c.topInset), ("bottomInset", .number c.bottomInset)]

def Trim.fields (t : Trim) : Attributes :=
  [("trimStart", .number t.start), ("trimEnd", .number t.stop), ("trimOffset", .number t.offset)]

def StepEasing.fields (s : StepEasing) : Attributes :=
  [("finalStep", .number s.finalStep), ("initialStep", .number s.initialStep),
   ("isFinalStepSingleFrame", .flag s.isFinalStepSingleFrame),
   ("isInitialStepSingleFrame", .flag s.isInitialStepSingleFrame),
   ("stepCount", .number s.stepCount)]

def Parameters.fields (p : Parameters ρ) : Attributes :=
  optionalField "target" .text p.target ++
  [("referenceParameters", .table (p.references.map fun r => (r.1, ref r.2)))]

def KeyFrame.datum {α : Type} (value : α → Datum) (k : KeyFrame ρ α) : Datum :=
  .record ([("progress", Datum.number k.progress), ("easing", ref k.easing)] ++
    match k.value with
    | .value v => [("kind", .text "value"), ("value", value v)]
    | .expression e => [("kind", .text "expression"), ("expression", .text e)])

def Frames.fields {α : Type} (value : α → Datum) (f : Frames ρ α) : Attributes :=
  [("keyFrames", .list (f.keyFrames.map (·.datum ref value))), ("duration", .number f.duration)]

def Variant.fields : Variant ρ → Attributes
  | .containerVisual v => v.fields ref
  | .shapeVisual v shapes box =>
    v.fields ref ++ [("shapes", .list (shapes.map ref))] ++ optionalField "viewBox" ref box
  | .insetClip c => c.fields
  | .viewBox size => [("size", .ofVector2 size)]
  | .containerShape p shapes => p.fields ++ [("shapes", .list (shapes.map ref))]
  | .spriteShape p s => p.fields ++ s.fields ref
  | .ellipseGeometry t center radius =>
    t.fields ++ [("center", .ofVector2 center), ("radius", .ofVector2 radius)]
  | .rectangleGeometry t size => t.fields ++ [("size", .ofVector2 size)]
  | .roundedRectangleGeometry t size radius =>
    t.fields ++ [("size", .ofVector2 size), ("cornerRadius", .ofVector2 radius)]
  | .pathGeometry t path => t.fields ++ [("path", ref path)]
  | .colorBrush c => [("color", .ofColor c)]
  | .linearEasing => []
  | .cubicBezierEasing a b => [("controlPoint1", .ofVector2 a), ("controlPoint2", .ofVector2 b)]
  | .stepEasing s => s.fields
  | .expressionAnimation p e => p.fields ref ++ [("expression", .text e)]
  | .colorAnimation p f => p.fields ref ++ f.fields ref .ofColor
  | .scalarAnimation p f => p.fields ref ++ f.fields ref .number
  | .vector2Animation p f => p.fields ref ++ f.fields ref .ofVector2
  | .vector3Animation p f => p.fields ref ++ f.fields ref .ofVector3
  | .pathAnimation p f => p.fields ref ++ f.fields ref ref

def PathCommand.datum : PathCommand → Datum
  | .beginFigure p => .record [("kind", .text "beginFigure"), ("startPoint", .ofVector2 p)]
  | .addLine p => .record [("kind", .text "addLine"), ("endPoint", .ofVector2 p)]
  | .addCubicBezier a b p =>
    .record [("kind", .text "addCubicBezier"), ("controlPoint1", .ofVector2 a),
      ("controlPoint2", .ofVector2 b), ("endPoint", .ofVector2 p)]
  | .endFigure figureLoop =>
    .record [("kind", .text "endFigure"), ("figureLoop", .ofNamed figureLoop)]

def CanvasGeometry.fields : CanvasGeometry ρ → Attributes
  | .combination a b matrix mode =>
    [("geometryType", .text "Combination"), ("a", ref a), ("b", ref b),
     ("matrix", .ofMatrix matrix), ("combineMode", .ofNamed mode)]
  | .ellipse x y rx ry =>
    [("geometryType", .text "Ellipse"), ("x", .number x), ("y", .number y),
     ("radiusX", .number rx), ("radiusY", .number ry)]
  | .path region commands =>
    [("geometryType", .text "Path"), ("filledRegionDetermination", .ofNamed region),
     ("commands", .list (commands.map PathCommand.datum))]
  | .roundedRectangle x y w h rx ry =>
    [("geometryType", .text "RoundedRectangle"), ("x", .number x), ("y", .number y),
     ("w", .number w), ("h", .number h), ("radiusX", .number rx), ("radiusY", .number ry)]

def Object.fields (o : Object ρ) : Attributes :=
  let type : Attributes := [("type", .text o.typeName)]
  match o with
  | .composition base variant =>
    [("animators", .list (animatorData ref base.onObject)),
     ("properties", .record (base.values.fields (animatorData ref base.onProperties)))] ++
    variant.fields ref ++ base.description.fields ++ type
  | .path description source => type ++ [("source", ref source)] ++ description.fields
  | .canvas description geometry => type ++ geometry.fields ref ++ description.fields

end SceneCompiler
