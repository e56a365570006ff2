import SceneCompiler.Graph

/-!
Merging: objects that are interchangeable are built once. Two objects are interchangeable when
they have the same fields and refer to interchangeable objects. An object with animators or
property values stands alone, and so does any visual, clip, view box and shape.
-/

namespace SceneCompiler

inductive Atom where
  | text (value : String)
  | number (value : Number)
  | flag (value : Bool)
  | size (count : Nat)
deriving DecidableEq, Repr

namespace Atom

/-- Numbers count as equal when they are written alike. -/
def ofNumber (n : Number) : Atom :=
  .number n.written

def ofVector2 (v : Vector2) : List Atom :=
  [ofNumber v.x, ofNumber v.y]

def ofVector3 (v : Vector3) : List Atom :=
  [ofNumber v.x, ofNumber v.y, ofNumber v.z]

def ofMatrix (m : Matrix3x2) : List Atom :=
  [m.m11, m.m12, m.m21, m.m22, m.m31, m.m32].map ofNumber

def ofColor (c : Color) : List Atom :=
  [.text c.hex]

def ofNamed {α : Type} [Named α] (a : α) : List Atom :=
  [.text (Named.name a)]

def ofTrim (t : Trim) : List Atom :=
  [t.start, t.stop, t.offset].map ofNumber

def ofCommand : PathCommand → List Atom
  | .beginFigure p => .text "beginFigure" :: ofVector2 p
  | .addLine p => .text "addLine" :: ofVector2 p
  | .addCubicBezier a b p => .text "addCubicBezier" :: (ofVector2 a ++ ofVector2 b ++ ofVector2 p)
  | .endFigure figureLoop => .text "endFigure" :: ofNamed figureLoop

def ofParameters {ρ : Type} (p : Parameters ρ) : List Atom :=
  .text (p.target.getD "") :: .size p.references.length :: p.references.map fun r => .text r.1

def ofFrames {ρ α : Type} (value : α → List Atom) (frames : Frames ρ α) : List Atom :=
  ofNumber frames.duration :: .size frames.keyFrames.length ::
    frames.keyFrames.flatMap fun frame =>
      ofNumber frame.progress ::
        match frame.value with
        | .value v => .text "value" :: value v
        | .expression source => [.text "expression", .text source]

end Atom

namespace Variant

variable {ρ : Type}

def atoms? : Variant ρ → Option (List Atom)
  | .linearEasing => some []
  | .cubicBezierEasing a b => some (Atom.ofVector2 a ++ Atom.ofVector2 b)
  | .stepEasing s =>
    some [.ofNumber s.finalStep, .ofNumber s.initialStep, .flag s.isFinalStepSingleFrame,
      .flag s.isInitialStepSingleFrame, .ofNumber s.stepCount]
  | .colorBrush c => some (Atom.ofColor c)
  | .ellipseGeometry t center radius =>
    some (Atom.ofTrim t ++ Atom.ofVector2 center ++ Atom.ofVector2 radius)
  | .rectangleGeometry t size => some (Atom.ofTrim t ++ Atom.ofVector2 size)
  | .roundedRectangleGeometry t size radius =>
    some (Atom.ofTrim t ++ Atom.ofVector2 size ++ Atom.ofVector2 radius)
  | .pathGeometry t _ => some (Atom.ofTrim t)
  | .expressionAnimation p expression => some (.text expression :: Atom.ofParameters p)
  | .colorAnimation p f => some (Atom.ofParameters p ++ Atom.ofFrames Atom.ofColor f)
  | .scalarAnimation p f =>
    some (Atom.ofParameters p ++ Atom.ofFrames (fun x => [Atom.ofNumber x]) f)
  | .vector2Animation p f => some (Atom.ofParameters p ++ Atom.ofFrames Atom.ofVector2 f)
  | .vector3Animation p f => some (Atom.ofParameters p ++ Atom.ofFrames Atom.ofVector3 f)
  | .pathAnimation p f => some (Atom.ofParameters p ++ Atom.ofFrames (fun _ => []) f)
  | _ => none

end Variant

def CanvasGeometry.atoms {ρ : Type} : CanvasGeometry ρ → List Atom
  | .combination _ _ matrix mode =>
    .text "Combination" :: (Atom.ofMatrix matrix ++ Atom.ofNamed mode)
  | .ellipse x y rx ry => .text "Ellipse" :: [x, y, rx, ry].map Atom.ofNumber
  | .path region commands =>
    .text "Path" ::
      (Atom.ofNamed region ++ .size commands.length :: commands.flatMap Atom.ofCommand)
  | .roundedRectangle x y w h rx ry =>
    .text "RoundedRectangle" :: [x, y, w, h, rx, ry].map Atom.ofNumber

/--
The type and fields of an object that may be merged, references apart. Comments of composition
objects count only where they are kept.
-/
def Object.atoms? {ρ : Type} (keepComments : Bool) : Object ρ → Option (List Atom)
  | .composition base variant =>
    if !base.animators.isEmpty || !base.values.isEmpty then none
    else
      variant.atoms?.map fun fields =>
        .text variant.typeName :: fields ++
          if keepComments then [.text (base.description.comment.getD "")] else []
  | .path _ _ => some [.text "CompositionPath"]
  | .canvas _ geometry => some (.text "CanvasGeometry" :: geometry.atoms)

variable {n : Nat}

def Graph.atoms (g : Graph n) (keepComments : Bool) (i : Fin n) : Option (List Atom) :=
  (g.object i).atoms? keepComments

/-- What a reference adds to a key: the group of the object, or the object itself while the key of
that object is still being computed. -/
inductive Label (n : Nat) where
  | group (k : Nat)
  | unfinished (i : Fin n)
deriving DecidableEq, Repr

inductive Key (n : Nat) where
  | alone (i : Fin n)
  | shared (fields : List Atom) (references : List (Label n))
deriving DecidableEq, Repr

/-- The groups found so far. A group is the position of its key. -/
structure Grouping (n : Nat) where
  keys : List (Key n) := []
  groups : List (Fin n × Nat) := []
deriving Repr

namespace Grouping

def insert (s : Grouping n) (i : Fin n) (key : Key n) : Label n × Grouping n :=
  match s.keys.idxOf? key with
  | some k => (.group k, { s with groups := s.groups ++ [(i, k)] })
  | none =>
    let k := s.keys.length
    (.group k, ⟨s.keys ++ [key], s.groups ++ [(i, k)]⟩)

def labels (find : Grouping n → Fin n → Label n × Grouping n) :
    Grouping n → List (Fin n) → List (Label n) × Grouping n
  | s, [] => ([], s)
  | s, i :: rest =>
    let (l, s) := find s i
    let (ls, s) := labels find s rest
    (l :: ls, s)

/--
The label of an object. `active` holds the objects whose keys are being computed; as they are
distinct, `fuel` above the number of objects is never used up.
-/
def label (heap : Heap n) (atoms : Fin n → Option (List Atom)) :
    (fuel : Nat) → (active : List (Fin n)) → Grouping n → Fin n → Label n × Grouping n
  | 0, _, s, i => (.unfinished i, s)
  | fuel + 1, active, s, i =>
    match s.groups.lookup i with
    | some k => (.group k, s)
    | none =>
      if active.contains i then (.unfinished i, s)
      else
        match atoms i with
        | none => s.insert i (.alone i)
        | some fields =>
          let (references, s) :=
            labels (label heap atoms fuel (i :: active)) s heap[i].references
          s.insert i (.shared fields references)

def ofGraph (g : Graph n) (atoms : Fin n → Option (List Atom)) : Grouping n :=
  g.order.foldl (fun s i => (label g.heap atoms (n + 1) [] s i).2) {}

end Grouping

/-- A graph in which each object stands for its group or is represented by another. -/
structure Merge (n : Nat) where
  graph : Graph n
  /-- The first object of each object's group, in construction order. -/
  representative : Vector (Fin n) n

namespace Merge

def ofGraph (g : Graph n) (atoms : Fin n → Option (List Atom)) : Merge n :=
  let grouping := Grouping.ofGraph g atoms
  let groups : Vector (Option Nat) n := Vector.ofFn fun i => grouping.groups.lookup i
  ⟨g, Vector.ofFn fun i => (g.order.find? fun j => groups[j] == groups[i]).getD i⟩

variable (m : Merge n)

def object (i : Fin n) : Object (Fin n) :=
  m.graph.object i

def representatives : List (Fin n) :=
  m.graph.order.filter fun i => m.representative[i] == i

def groupSize (r : Fin n) : Nat :=
  m.graph.order.countP fun i => m.representative[i] == r

def inReferences (r : Fin n) : List (Fin n) :=
  m.representatives.flatMap fun i =>
    (m.graph.outReferences i).filterMap fun k => if m.representative[k] = r then some i else none

end Merge

end SceneCompiler
