import SceneCompiler.Factory.Binding

/-!
The factory of each kind of object. A property is assigned only where it differs from that of a
freshly created object.
-/

namespace SceneCompiler

structure Settings where
  durationMs : Number
  setComments : Bool
deriving DecidableEq, Repr

namespace Construction

variable {ρ : Type}

def assign (property : String) (value : Operand ρ) : Statement ρ :=
  .assign .result property value

def assignSome {α : Type} (property : String) (value : α → Operand ρ) (a : Option α) :
    List (Statement ρ) :=
  a.toList.map fun a => assign property (value a)

def assignIf (differs : Bool) (property : String) (value : Operand ρ) : List (Statement ρ) :=
  if differs then [assign property value] else []

def assignNumber (property : String) (standard value : Number) : List (Statement ρ) :=
  assignIf (!value.equals standard) property (.number value)

def assignInteger (property : String) (standard value : Number) : List (Statement ρ) :=
  assignIf (!value.equals standard) property (.integer value)

def assignVector2 (property : String) (standard value : Vector2) : List (Statement ρ) :=
  assignIf (!value.equals standard) property (.vector2 value)

def assignFlag (property : String) (flag : Bool) : List (Statement ρ) :=
  assignIf flag property .truth

def fill {α : Type} (list : ItemList) (item : α → List (Statement ρ)) (items : List α) :
    List (Statement ρ) :=
  if items.isEmpty then [] else .openList list :: items.flatMap item

def comment? (s : Settings) (base : Base ρ) : Option String :=
  if s.setComments then Text.present? base.description.comment else none

def insertValues {σ : Type} (values : PropertyValues) : List (Statement σ) :=
  if values.isEmpty then []
  else
    .openProperties ::
      ((values.scalars.map fun (name, value) => .insertScalar name value) ++
       (values.vector2s.map fun (name, value) => .insertVector2 name value))

variable {n : Nat} (p : Plan n) (s : Settings) (r : Fin n)

def setUp (base : Base (Fin n)) : List (Statement (Request n)) :=
  assignSome "Comment" .text (comment? s base) ++ insertValues base.values

def ask (i : Fin n) : Operand (Request n) :=
  .object (p.request r i)

def bareOr (creation : Creation (Request n)) (statements : List (Statement (Request n))) :
    Factory (Request n) :=
  if statements.isEmpty then ⟨creation, true, []⟩ else ⟨creation, false, statements⟩

def visual (v : Visual (Fin n)) : List (Statement (Request n)) :=
  assignSome "CenterPoint" .vector3 v.centerPoint ++
  assignSome "Clip" (ask p r) v.clip ++
  assignSome "Offset" .vector3 v.offset ++
  assignSome "RotationAngleInDegrees" .number v.rotationAngleInDegrees ++
  assignSome "Scale" .vector3 v.scale ++
  assignSome "Size" .vector2 v.size ++
  fill .children (fun i => [.add .children (ask p r i)]) v.children

def describedShapes (shapes : List (Fin n)) : List (Statement (Request n)) :=
  fill .shapes
    (fun i =>
      ((p.merge.object i).description.short.toList.map .comment) ++ [.add .shapes (ask p r i)])
    shapes

def insetClip (c : InsetClip) : List (Statement (Request n)) :=
  assignVector2 "CenterPoint" ⟨0, 0⟩ c.centerPoint ++
  assignVector2 "Scale" ⟨1, 1⟩ c.scale ++
  assignNumber "LeftInset" 0 c.leftInset ++
  assignNumber "RightInset" 0 c.rightInset ++
  assignNumber "TopInset" 0 c.topInset ++
  assignNumber "BottomInset" 0 c.bottomInset

def placement (q : Placement) : List (Statement (Request n)) :=
  assignSome "CenterPoint" .vector2 q.centerPoint ++
  assignSome "Offset" .vector2 q.offset ++
  assignSome "RotationAngleInDegrees" .number q.rotationAngleInDegrees ++
  assignSome "Scale" .vector2 q.scale

def strokeCap (property : String) (c : StrokeCap) : List (Statement (Request n)) :=
  assignIf (c != .flat) property (.cap c)

def sprite (q : Sprite (Fin n)) : List (Statement (Request n)) :=
  assignSome "FillBrush" (ask p r) q.fillBrush ++
  assignSome "Geometry" (ask p r) q.geometry ++
  assignFlag "IsStrokeNonScaling" q.isStrokeNonScaling ++
  assignSome "StrokeBrush" (ask p r) q.strokeBrush ++
  strokeCap "StrokeDashCap" q.strokeDashCap ++
  assignNumber "StrokeDashOffset" 0 q.strokeDashOffset ++
  fill .strokeDashArray (fun dash => [.add .strokeDashArray (.number dash)]) q.strokeDashArray ++
  strokeCap "StrokeEndCap" q.strokeEndCap ++
  assignIf (q.strokeLineJoin != .miter) "StrokeLineJoin" (.join q.strokeLineJoin) ++
  strokeCap "StrokeStartCap" q.strokeStartCap ++
  assignNumber "StrokeMiterLimit" 1 q.strokeMiterLimit ++
  assignNumber "StrokeThickness" 1 q.strokeThickness

def trim (t : Trim) : List (Statement (Request n)) :=
  assignNumber "TrimEnd" 1 t.stop ++
  assignNumber "TrimOffset" 0 t.offset ++
  assignNumber "TrimStart" 0 t.start

def stepEasing (e : StepEasing) : List (Statement (Request n)) :=
  assignInteger "FinalStep" 1 e.finalStep ++
  assignInteger "InitialStep" 0 e.initialStep ++
  assignFlag "IsFinalStepSingleFrame" e.isFinalStepSingleFrame ++
  assignFlag "IsInitialStepSingleFrame" e.isInitialStepSingleFrame ++
  assignInteger "StepCount" 1 e.stepCount

def parameters (q : Parameters (Fin n)) : List (Statement (Request n)) :=
  assignSome "Target" .text (Text.present? q.target) ++
  (q.references.map fun (name, i) => .setParameter .result name (ask p r i))

def duration (milliseconds : Number) : Operand (Request n) :=
  if milliseconds.equals s.durationMs then .duration else .timeSpan milliseconds

def keyFrame {α : Type} (value : α → Operand (Request n)) (describe : α → List String)
    (k : KeyFrame (Fin n) α) : List (Statement (Request n)) :=
  match k.value with
  | .value v =>
    (describe v).map .comment ++ [.insertKeyFrame k.progress (value v) (p.request r k.easing)]
  | .expression text => [.insertExpressionKeyFrame k.progress text (p.request r k.easing)]

def frames {α : Type} (q : Parameters (Fin n)) (f : Frames (Fin n) α)
    (value : α → Operand (Request n)) (describe : α → List String) :
    List (Statement (Request n)) :=
  parameters p r q ++ assign "Duration" (duration s f.duration) ::
    f.keyFrames.flatMap (keyFrame p r value describe)

/-- The factory of a composition object. -/
def variantFactory (base : Base (Fin n)) : Variant (Fin n) → Factory (Request n)
  | .containerVisual v => full "CreateContainerVisual" (visual p r v)
  | .shapeVisual v shapes box =>
    full "CreateShapeVisual"
      (visual p r v ++ describedShapes p r shapes ++ assignSome "ViewBox" (ask p r) box)
  | .insetClip c => full "CreateInsetClip" (insetClip c)
  | .viewBox size => full "CreateViewBox" [assign "Size" (.vector2 size)]
  | .containerShape q shapes =>
    full "CreateContainerShape"
      (placement q ++ fill .shapes (fun i => [.add .shapes (ask p r i)]) shapes)
  | .spriteShape q s => full "CreateSpriteShape" (placement q ++ sprite p r s)
  | .ellipseGeometry t center radius =>
    full "CreateEllipseGeometry"
      (trim t ++ assignVector2 "Center" ⟨0, 0⟩ center ++ [assign "Radius" (.vector2 radius)])
  | .rectangleGeometry t size =>
    full "CreateRectangleGeometry" (trim t ++ [assign "Size" (.vector2 size)])
  | .roundedRectangleGeometry t size radius =>
    full "CreateRoundedRectangleGeometry"
      (trim t ++ [assign "CornerRadius" (.vector2 radius), assign "Size" (.vector2 size)])
  | .pathGeometry t path =>
    ⟨.call "CreatePathGeometry" [ask p r path], false,
      setUp s base ++ trim t ++ p.startAnimations r base⟩
  | .colorBrush c =>
    bareOr (.call "CreateColorBrush" [.color c]) (setUp s base ++ p.startAnimations r base)
  | .linearEasing => bareOr (.call "CreateLinearEasingFunction" []) (setUp s base)
  | .cubicBezierEasing a b =>
    bareOr (.call "CreateCubicBezierEasingFunction" [.vector2 a, .vector2 b]) (setUp s base)
  | .stepEasing e =>
    ⟨.call "CreateStepEasingFunction" [], false, setUp s base ++ stepEasing e⟩
  | .expressionAnimation q expression =>
    ⟨.call "CreateExpressionAnimation" [], false,
      setUp s base ++ parameters p r q ++ [assign "Expression" (.text expression)]⟩
  | .colorAnimation q f =>
    full "CreateColorKeyFrameAnimation" (frames p s r q f .color fun c => [c.name])
  | .scalarAnimation q f =>
    full "CreateScalarKeyFrameAnimation" (frames p s r q f .number fun _ => [])
  | .vector2Animation q f =>
    full "CreateVector2KeyFrameAnimation" (frames p s r q f .vector2 fun _ => [])
  | .vector3Animation q f =>
    full "CreateVector3KeyFrameAnimation" (frames p s r q f .vector3 fun _ => [])
  | .pathAnimation q f =>
    full "CreatePathKeyFrameAnimation" (frames p s r q f (ask p r) fun _ => [])
where
  full (method : String) (own : List (Statement (Request n))) : Factory (Request n) :=
    ⟨.call method [], false, setUp s base ++ own ++ p.startAnimations r base⟩

def canvasFactory : CanvasGeometry (Fin n) → Factory (Request n)
  | .combination a b matrix mode =>
    { creation := .combination (p.request r a) (p.request r b) matrix mode }
  | .ellipse x y rx ry => { creation := .ellipse x y rx ry }
  | .roundedRectangle x y w h rx ry => { creation := .roundedRectangle x y w h rx ry }
  | .path region commands => { creation := .outline region commands }

end Construction

def Plan.factory {n : Nat} (p : Plan n) (s : Settings) (r : Fin n) : Factory (Request n) :=
  match p.merge.object r with
  | .composition base variant => Construction.variantFactory p s r base variant
  | .path _ source => { creation := .path (p.request r source) }
  | .canvas _ geometry => Construction.canvasFactory p r geometry

end SceneCompiler
