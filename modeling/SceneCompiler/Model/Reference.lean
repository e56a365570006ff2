import SceneCompiler.Model.Object

/-!
The references of an object, in the order in which its factory asks for them, and objects with
their references replaced.
-/

namespace SceneCompiler

variable {ρ σ : Type}

mutual
def Animator.references : Animator ρ → List ρ
  | .plain _ animation => [animation]
  | .controlled _ animation _ onProperties onController =>
    animation :: (animatorReferences onProperties ++ animatorReferences onController)
def animatorReferences : List (Animator ρ) → List ρ
  | [] => []
  | animator :: rest => animator.references ++ animatorReferences rest
end

def Parameters.targets (parameters : Parameters ρ) : List ρ :=
  parameters.references.map (·.2)

def Frames.easings {α : Type} (frames : Frames ρ α) : List ρ :=
  frames.keyFrames.map (·.easing)

def Frames.pathsAndEasings (frames : Frames ρ ρ) : List ρ :=
  frames.keyFrames.flatMap fun frame =>
    match frame.value with
    | .value path => [path, frame.easing]
    | .expression _ => [frame.easing]

/--
The references of a composition object with multiplicity. Easing functions and expression
animations start no animations, so their animators are none.
-/
def Variant.references (variant : Variant ρ) (base : Base ρ) : List ρ :=
  let animations := animatorReferences base.animators
  match variant with
  | .containerVisual v => v.clip.toList ++ v.children ++ animations
  | .shapeVisual v shapes box =>
    v.clip.toList ++ v.children ++ shapes ++ box.toList ++ animations
  | .containerShape _ shapes => shapes ++ animations
  | .spriteShape _ s =>
    s.fillBrush.toList ++ s.geometry.toList ++ s.strokeBrush.toList ++ animations
  | .pathGeometry _ path => path :: animations
  | .insetClip _ | .viewBox _ | .colorBrush _ => animations
  | .ellipseGeometry _ _ _ | .rectangleGeometry _ _ | .roundedRectangleGeometry _ _ _ =>
    animations
  | .linearEasing | .cubicBezierEasing _ _ | .stepEasing _ => []
  | .expressionAnimation p _ => p.targets
  | .colorAnimation p f => p.targets ++ f.easings ++ animations
  | .scalarAnimation p f => p.targets ++ f.easings ++ animations
  | .vector2Animation p f => p.targets ++ f.easings ++ animations
  | .vector3Animation p f => p.targets ++ f.easings ++ animations
  | .pathAnimation p f => p.targets ++ f.pathsAndEasings ++ animations

def CanvasGeometry.references : CanvasGeometry ρ → List ρ
  | .combination a b _ _ => [a, b]
  | _ => []

def Object.references : Object ρ → List ρ
  | .composition base variant => variant.references base
  | .path _ source => [source]
  | .canvas _ geometry => geometry.references

mutual
def Animator.replace (f : ρ → Option σ) : Animator ρ → Option (Animator σ)
  | .plain property animation => (f animation).map (.plain property)
  | .controlled property animation values onProperties onController => do
    let animation ← f animation
    let onProperties ← replaceAnimators f onProperties
    let onController ← replaceAnimators f onController
    some (.controlled property animation values onProperties onController)
def replaceAnimators (f : ρ → Option σ) : List (Animator ρ) → Option (List (Animator σ))
  | [] => some []
  | animator :: rest => do
    let animator ← animator.replace f
    let rest ← replaceAnimators f rest
    some (animator :: rest)
end

def replaceAll (f : ρ → Option σ) : List ρ → Option (List σ)
  | [] => some []
  | r :: rest => do
    let r ← f r
    let rest ← replaceAll f rest
    some (r :: rest)

def replaceOptional (f : ρ → Option σ) : Option ρ → Option (Option σ)
  | none => some none
  | some r => (f r).map some

def Base.replace (f : ρ → Option σ) (base : Base ρ) : Option (Base σ) := do
  let onProperties ← replaceAnimators f base.onProperties
  let onObject ← replaceAnimators f base.onObject
  some ⟨base.description, base.values, onProperties, onObject⟩

def Visual.replace (f : ρ → Option σ) (v : Visual ρ) : Option (Visual σ) := do
  let clip ← replaceOptional f v.clip
  let children ← replaceAll f v.children
  some ⟨v.centerPoint, clip, v.offset, v.rotationAngleInDegrees, v.scale, v.size, children⟩

def Sprite.replace (f : ρ → Option σ) (s : Sprite ρ) : Option (Sprite σ) := do
  let fillBrush ← replaceOptional f s.fillBrush
  let geometry ← replaceOptional f s.geometry
  let strokeBrush ← replaceOptional f s.strokeBrush
  some ⟨fillBrush, geometry, s.isStrokeNonScaling, strokeBrush, s.strokeDashCap,
    s.strokeDashOffset, s.strokeDashArray, s.strokeEndCap, s.strokeLineJoin, s.strokeStartCap,
    s.strokeMiterLimit, s.strokeThickness⟩

def Parameters.replace (f : ρ → Option σ) (p : Parameters ρ) : Option (Parameters σ) := do
  let references ← replaceAll (fun r => (f r.2).map fun s => (r.1, s)) p.references
  some ⟨p.target, references⟩

def KeyFrame.replace {α β : Type} (f : ρ → Option σ) (g : α → Option β) (k : KeyFrame ρ α) :
    Option (KeyFrame σ β) := do
  let value ←
    match k.value with
    | .value v => (g v).map FrameValue.value
    | .expression text => some (.expression text)
  let easing ← f k.easing
  some ⟨k.progress, value, easing⟩

def Frames.replace {α β : Type} (f : ρ → Option σ) (g : α → Option β) (frames : Frames ρ α) :
    Option (Frames σ β) := do
  let keyFrames ← replaceAll (KeyFrame.replace f g) frames.keyFrames
  some ⟨frames.duration, keyFrames⟩

def Variant.replace (f : ρ → Option σ) : Variant ρ → Option (Variant σ)
  | .containerVisual v => (v.replace f).map .containerVisual
  | .shapeVisual v shapes box => do
    let v ← v.replace f
    let shapes ← replaceAll f shapes
    let box ← replaceOptional f box
    some (.shapeVisual v shapes box)
  | .insetClip c => some (.insetClip c)
  | .viewBox size => some (.viewBox size)
  | .containerShape p shapes => (replaceAll f shapes).map (.containerShape p)
  | .spriteShape p s => (s.replace f).map (.spriteShape p)
  | .ellipseGeometry t c r => some (.ellipseGeometry t c r)
  | .rectangleGeometry t s => some (.rectangleGeometry t s)
  | .roundedRectangleGeometry t s r => some (.roundedRectangleGeometry t s r)
  | .pathGeometry t path => (f path).map (.pathGeometry t)
  | .colorBrush c => some (.colorBrush c)
  | .linearEasing => some .linearEasing
  | .cubicBezierEasing a b => some (.cubicBezierEasing a b)
  | .stepEasing s => some (.stepEasing s)
  | .expressionAnimation p e => (p.replace f).map (.expressionAnimation · e)
  | .colorAnimation p k => do
    some (.colorAnimation (← p.replace f) (← k.replace f some))
  | .scalarAnimation p k => do
    some (.scalarAnimation (← p.replace f) (← k.replace f some))
  | .vector2Animation p k => do
    some (.vector2Animation (← p.replace f) (← k.replace f some))
  | .vector3Animation p k => do
    some (.vector3Animation (← p.replace f) (← k.replace f some))
  | .pathAnimation p k => do
    some (.pathAnimation (← p.replace f) (← k.replace f f))

def CanvasGeometry.replace (f : ρ → Option σ) : CanvasGeometry ρ → Option (CanvasGeometry σ)
  | .combination a b matrix mode => do
    some (.combination (← f a) (← f b) matrix mode)
  | .ellipse x y rx ry => some (.ellipse x y rx ry)
  | .path region commands => some (.path region commands)
  | .roundedRectangle x y w h rx ry => some (.roundedRectangle x y w h rx ry)

def Object.replace (f : ρ → Option σ) : Object ρ → Option (Object σ)
  | .composition base variant => do
    some (.composition (← base.replace f) (← variant.replace f))
  | .path description source => (f source).map (.path description)
  | .canvas description geometry => (geometry.replace f).map (.canvas description)

end SceneCompiler
