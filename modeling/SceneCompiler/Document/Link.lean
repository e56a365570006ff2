import SceneCompiler.Document.Issue
import SceneCompiler.Model.Object

/-!
The ids that records mention: what is asked of the object behind each, and when it is looked up.
Single-valued references are looked up while an object is created. Its collections are filled in
later, so that they may be circular.
-/

namespace SceneCompiler

/-- What a place that mentions an id asks of the object. -/
inductive Demand where
  | visual
  | insetClip
  | viewBox
  | shape
  | brush
  | geometry
  | compositionPath
  | canvasGeometry
  | compositionObject
  | animation
  | easing
deriving DecidableEq, Repr

namespace Demand

def phrase : Demand → String
  | .visual => "a visual"
  | .insetClip => "an inset clip"
  | .viewBox => "a view box"
  | .shape => "a shape"
  | .brush => "a brush"
  | .geometry => "a geometry"
  | .compositionPath => "a composition path"
  | .canvasGeometry => "a canvas geometry"
  | .compositionObject => "a composition object"
  | .animation => "an animation"
  | .easing => "an easing function"

def ofVariant {ρ : Type} : Variant ρ → Demand
  | .containerVisual _ | .shapeVisual _ _ _ => .visual
  | .insetClip _ => .insetClip
  | .viewBox _ => .viewBox
  | .containerShape _ _ | .spriteShape _ _ => .shape
  | .ellipseGeometry _ _ _ | .rectangleGeometry _ _ => .geometry
  | .roundedRectangleGeometry _ _ _ | .pathGeometry _ _ => .geometry
  | .colorBrush _ => .brush
  | .linearEasing | .cubicBezierEasing _ _ | .stepEasing _ => .easing
  | .expressionAnimation _ _ | .colorAnimation _ _ | .scalarAnimation _ _ => .animation
  | .vector2Animation _ _ | .vector3Animation _ _ | .pathAnimation _ _ => .animation

def admits {ρ : Type} (demand : Demand) : Object ρ → Bool
  | .composition _ variant => demand == .compositionObject || demand == ofVariant variant
  | .path _ _ => demand == .compositionPath
  | .canvas _ _ => demand == .canvasGeometry

end Demand

structure Mention where
  path : String
  id : String
  demand : Demand
deriving DecidableEq, Repr

inductive Content (ρ : Type) where
  | owned (values : PropertyValues) (onProperties onObject : List (Animator ρ))
  | children (visuals : List ρ)
  | shapes (shapes : List ρ)
  | parameters (references : List (String × ρ))
  | colorFrames (frames : List (KeyFrame ρ Color))
  | scalarFrames (frames : List (KeyFrame ρ Number))
  | vector2Frames (frames : List (KeyFrame ρ Vector2))
  | vector3Frames (frames : List (KeyFrame ρ Vector3))
  | pathFrames (frames : List (KeyFrame ρ ρ))
deriving Repr

section Contents

variable {ρ : Type}

def Variant.contents : Variant ρ → List (Content ρ)
  | .containerVisual v => [.children v.children]
  | .shapeVisual v shapes _ => [.children v.children, .shapes shapes]
  | .containerShape _ shapes => [.shapes shapes]
  | .expressionAnimation p _ => [.parameters p.references]
  | .colorAnimation p f => [.parameters p.references, .colorFrames f.keyFrames]
  | .scalarAnimation p f => [.parameters p.references, .scalarFrames f.keyFrames]
  | .vector2Animation p f => [.parameters p.references, .vector2Frames f.keyFrames]
  | .vector3Animation p f => [.parameters p.references, .vector3Frames f.keyFrames]
  | .pathAnimation p f => [.parameters p.references, .pathFrames f.keyFrames]
  | _ => []

def Object.contents : Object ρ → List (Content ρ)
  | .composition base variant =>
    .owned base.values base.onProperties base.onObject :: variant.contents
  | .path _ _ => []
  | .canvas _ _ => []

def Base.add (base : Base ρ) (values : PropertyValues) (onProperties onObject : List (Animator ρ)) :
    Base ρ :=
  ⟨base.description,
    ⟨base.values.scalars ++ values.scalars, base.values.vector2s ++ values.vector2s⟩,
    base.onProperties ++ onProperties, base.onObject ++ onObject⟩

def Visual.add (v : Visual ρ) (children : List ρ) : Visual ρ :=
  { v with children := v.children ++ children }

def Parameters.add (p : Parameters ρ) (references : List (String × ρ)) : Parameters ρ :=
  { p with references := p.references ++ references }

def Frames.add {α : Type} (f : Frames ρ α) (frames : List (KeyFrame ρ α)) : Frames ρ α :=
  { f with keyFrames := f.keyFrames ++ frames }

def Variant.addParameters (references : List (String × ρ)) : Variant ρ → Variant ρ
  | .expressionAnimation p e => .expressionAnimation (p.add references) e
  | .colorAnimation p f => .colorAnimation (p.add references) f
  | .scalarAnimation p f => .scalarAnimation (p.add references) f
  | .vector2Animation p f => .vector2Animation (p.add references) f
  | .vector3Animation p f => .vector3Animation (p.add references) f
  | .pathAnimation p f => .pathAnimation (p.add references) f
  | v => v

def Variant.add : Variant ρ → Content ρ → Variant ρ
  | .containerVisual v, .children visuals => .containerVisual (v.add visuals)
  | .shapeVisual v shapes box, .children visuals => .shapeVisual (v.add visuals) shapes box
  | .shapeVisual v shapes box, .shapes more => .shapeVisual v (shapes ++ more) box
  | .containerShape p shapes, .shapes more => .containerShape p (shapes ++ more)
  | .colorAnimation p f, .colorFrames frames => .colorAnimation p (f.add frames)
  | .scalarAnimation p f, .scalarFrames frames => .scalarAnimation p (f.add frames)
  | .vector2Animation p f, .vector2Frames frames => .vector2Animation p (f.add frames)
  | .vector3Animation p f, .vector3Frames frames => .vector3Animation p (f.add frames)
  | .pathAnimation p f, .pathFrames frames => .pathAnimation p (f.add frames)
  | v, .parameters references => v.addParameters references
  | v, _ => v

def Object.add : Object ρ → Content ρ → Object ρ
  | .composition base variant, .owned values onProperties onObject =>
    .composition (base.add values onProperties onObject) variant
  | .composition base variant, content => .composition base (variant.add content)
  | o, _ => o

end Contents

section Resolution

variable {m : Type → Type} [Monad m] {σ : Type} (find : Mention → m (Option σ))

def findOptional (path : String) (demand : Demand) : Option String → m (Option σ)
  | none => return none
  | some id => find ⟨path, id, demand⟩

def Visual.created (v : Visual String) (clip : Option σ) : Visual σ :=
  ⟨v.centerPoint, clip, v.offset, v.rotationAngleInDegrees, v.scale, v.size, []⟩

def Sprite.created (s : Sprite String) (fillBrush geometry strokeBrush : Option σ) : Sprite σ :=
  ⟨fillBrush, geometry, s.isStrokeNonScaling, strokeBrush, s.strokeDashCap, s.strokeDashOffset,
    s.strokeDashArray, s.strokeEndCap, s.strokeLineJoin, s.strokeStartCap, s.strokeMiterLimit,
    s.strokeThickness⟩

/-- Creates a variant without its collections. There is none where what it is made from is not
found. -/
def Variant.create (path : String) : Variant String → m (Option (Variant σ))
  | .containerVisual v => do
    let clip ← findOptional find (path ++ ".clip") .insetClip v.clip
    return some (.containerVisual (v.created clip))
  | .shapeVisual v _ box => do
    let clip ← findOptional find (path ++ ".clip") .insetClip v.clip
    let box ← findOptional find (path ++ ".viewBox") .viewBox box
    return some (.shapeVisual (v.created clip) [] box)
  | .insetClip c => return some (.insetClip c)
  | .viewBox size => return some (.viewBox size)
  | .containerShape p _ => return some (.containerShape p [])
  | .spriteShape p s => do
    let fillBrush ← findOptional find (path ++ ".fillBrush") .brush s.fillBrush
    let geometry ← findOptional find (path ++ ".geometry") .geometry s.geometry
    let strokeBrush ← findOptional find (path ++ ".strokeBrush") .brush s.strokeBrush
    return some (.spriteShape p (s.created fillBrush geometry strokeBrush))
  | .ellipseGeometry t c r => return some (.ellipseGeometry t c r)
  | .rectangleGeometry t s => return some (.rectangleGeometry t s)
  | .roundedRectangleGeometry t s r => return some (.roundedRectangleGeometry t s r)
  | .pathGeometry t id => do
    let found ← find ⟨path ++ ".path", id, .compositionPath⟩
    return found.map (.pathGeometry t)
  | .colorBrush c => return some (.colorBrush c)
  | .linearEasing => return some .linearEasing
  | .cubicBezierEasing a b => return some (.cubicBezierEasing a b)
  | .stepEasing s => return some (.stepEasing s)
  | .expressionAnimation p e => return some (.expressionAnimation ⟨p.target, []⟩ e)
  | .colorAnimation p f => return some (.colorAnimation ⟨p.target, []⟩ ⟨f.duration, []⟩)
  | .scalarAnimation p f => return some (.scalarAnimation ⟨p.target, []⟩ ⟨f.duration, []⟩)
  | .vector2Animation p f => return some (.vector2Animation ⟨p.target, []⟩ ⟨f.duration, []⟩)
  | .vector3Animation p f => return some (.vector3Animation ⟨p.target, []⟩ ⟨f.duration, []⟩)
  | .pathAnimation p f => return some (.pathAnimation ⟨p.target, []⟩ ⟨f.duration, []⟩)

def CanvasGeometry.create (path : String) : CanvasGeometry String → m (Option (CanvasGeometry σ))
  | .combination a b matrix mode => do
    let a ← find ⟨path ++ ".a", a, .canvasGeometry⟩
    let b ← find ⟨path ++ ".b", b, .canvasGeometry⟩
    return a.bind fun a => b.map fun b => .combination a b matrix mode
  | .ellipse x y rx ry => return some (.ellipse x y rx ry)
  | .path region commands => return some (.path region commands)
  | .roundedRectangle x y w h rx ry => return some (.roundedRectangle x y w h rx ry)

def Object.create (path : String) : Object String → m (Option (Object σ))
  | .composition base variant => do
    let created ← variant.create find path
    return created.map (.composition { description := base.description })
  | .path description id => do
    let found ← find ⟨path ++ ".source", id, .canvasGeometry⟩
    return found.map (.path description)
  | .canvas description geometry => do
    let created ← geometry.create find path
    return created.map (.canvas description)

/-- Looks up what the items of a list are made from, each at its position, and keeps the items for
which it is found. -/
def collect {α β : Type} (item : Nat → α → m (Option β)) : Nat → List α → m (List β)
  | _, [] => return []
  | i, a :: rest => do
    let b ← item i a
    let others ← collect item (i + 1) rest
    return b.toList ++ others

mutual
def Animator.resolve (path : String) : Animator String → m (Option (Animator σ))
  | .plain property id => do
    let found ← find ⟨path ++ ".animation", id, .animation⟩
    return found.map (.plain property)
  | .controlled property id values onProperties onController => do
    let found ← find ⟨path ++ ".animation", id, .animation⟩
    match found with
    | none => return none
    | some animation =>
      let onProperties ←
        resolveAnimators (path ++ ".controller.properties.animators") 0 onProperties
      let onController ← resolveAnimators (path ++ ".controller.animators") 0 onController
      return some (.controlled property animation values onProperties onController)
def resolveAnimators (path : String) : Nat → List (Animator String) → m (List (Animator σ))
  | _, [] => return []
  | i, animator :: rest => do
    let resolved ← animator.resolve (path ++ "." ++ toString i)
    let others ← resolveAnimators path (i + 1) rest
    return resolved.toList ++ others
end

def resolveIds (path : String) (demand : Demand) (ids : List String) : m (List σ) :=
  collect (fun i id => find ⟨path ++ "." ++ toString i, id, demand⟩) 0 ids

def framePlace (path : String) (i : Nat) (part : String) : String :=
  path ++ ".keyFrames." ++ toString i ++ "." ++ part

def resolveFrames {α : Type} (path : String) (frames : List (KeyFrame String α)) :
    m (List (KeyFrame σ α)) :=
  collect (fun i frame => do
    let easing ← find ⟨framePlace path i "easing", frame.easing, .easing⟩
    return easing.map fun easing => ⟨frame.progress, frame.value, easing⟩) 0 frames

def resolvePath (path : String) (i : Nat) : FrameValue String → m (Option (FrameValue σ))
  | .value id => do
    let found ← find ⟨framePlace path i "value", id, .compositionPath⟩
    return found.map .value
  | .expression text => return some (.expression text)

def resolvePathFrames (path : String) (frames : List (KeyFrame String String)) :
    m (List (KeyFrame σ σ)) :=
  collect (fun i frame => do
    let value ← resolvePath find path i frame.value
    let easing ← find ⟨framePlace path i "easing", frame.easing, .easing⟩
    return value.bind fun value => easing.map fun easing => ⟨frame.progress, value, easing⟩) 0 frames

def Content.resolve (path : String) : Content String → m (Content σ)
  | .owned values onProperties onObject => do
    let onProperties ← resolveAnimators find (path ++ ".properties.animators") 0 onProperties
    let onObject ← resolveAnimators find (path ++ ".animators") 0 onObject
    return .owned values onProperties onObject
  | .children ids => return .children (← resolveIds find (path ++ ".children") .visual ids)
  | .shapes ids => return .shapes (← resolveIds find (path ++ ".shapes") .shape ids)
  | .parameters references => do
    let found ← collect (fun _ (name, id) => do
      let found ← find ⟨path ++ ".referenceParameters." ++ name, id, .compositionObject⟩
      return found.map fun target => (name, target)) 0 references
    return .parameters found
  | .colorFrames frames => return .colorFrames (← resolveFrames find path frames)
  | .scalarFrames frames => return .scalarFrames (← resolveFrames find path frames)
  | .vector2Frames frames => return .vector2Frames (← resolveFrames find path frames)
  | .vector3Frames frames => return .vector3Frames (← resolveFrames find path frames)
  | .pathFrames frames => return .pathFrames (← resolvePathFrames find path frames)

end Resolution

end SceneCompiler
