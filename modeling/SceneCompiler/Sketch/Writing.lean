import SceneCompiler.Compile
import SceneCompiler.Sketch.Typing

/-!
The methods of the objects of a sketch. Where fields are not of their types, the statements are
still those for the object that is read, but what is assigned, inserted and passed on is spelled
as the sketch has it.
-/

namespace SceneCompiler

abbrev Writing := StateT Calls (Except Fault)

/-- What methods are written from: a sketch, the plan of its objects, the slot that holds each of
them, and the place of the object in a slot. -/
structure Scribe (n : Nat) where
  sketch : Sketch
  plan : Plan n
  options : Options
  slot : Fin n → Slot
  place : Slot → Except Fault (Fin n)

namespace Scribe

variable {n : Nat} (w : Scribe n)

def dialect : CSharp.Dialect :=
  w.options.dialect

def settings : Settings :=
  ⟨w.options.durationMs, w.options.setComments⟩

def ask (caller : Fin n) (object : Slot) : Writing String := do
  let i ← (w.place object : Except Fault (Fin n))
  let access ← w.plan.answer (w.plan.request caller i)
  return access.text

def write (render : Statement Access → Code) (statement : Statement (Request n)) : Writing Code :=
  render <$> statement.traverse w.plan.answer

/-! ### Values -/

def float (slot : Slot) : String :=
  CSharp.float (w.sketch.toNumber slot)

def vector2 (slot : Slot) : String :=
  CSharp.vector2 (w.sketch.toVector2 slot)

def vector3 (slot : Slot) : String :=
  CSharp.vector3 (w.sketch.toVector3 slot)

def color (slot : Slot) : String :=
  CSharp.argb (w.sketch.channels slot)

/-- What is assigned to a field, as its slot has it. -/
def value (slot : Slot) : Operand Access → String
  | .number _ => w.float slot
  | .integer _ => CSharp.integer (w.sketch.toNumber slot)
  | .text _ => w.sketch.literal slot
  | .vector2 _ => w.vector2 slot
  | .vector3 _ => w.vector3 slot
  | .color _ => w.color slot
  | .cap _ => CSharp.strokeCap w.dialect (w.sketch.display slot)
  | .join _ => CSharp.lineJoin w.dialect (w.sketch.display slot)
  | .timeSpan _ => CSharp.timeSpan (CSharp.integer (CSharp.ticks (w.sketch.toNumber slot)))
  | operand => CSharp.operand w.dialect operand

def statement (f : Slots) : Statement Access → Code
  | .assign .result property operand =>
    CSharp.assignLine w.dialect "result" property (w.value (f.get (fieldOf property)) operand)
  | statement => CSharp.statement w.dialect statement

def creation (f : Slots) : Creation Access → String
  | .call method [.color c] =>
    CSharp.compositorCall w.dialect method [w.value (f.get "color") (.color c)]
  | creation => CSharp.creation w.dialect creation

/-! ### Set-up -/

def assignComment (f : Slots) : List Code :=
  if w.options.setComments then
    (Text.present? (f.get "comment").toText?).toList.map fun text =>
      CSharp.assignLine w.dialect "result" "Comment" (Text.quote text)
  else []

def insertValues (method : String) (value : Slot → String) (slot : Slot) : List Code :=
  (w.sketch.pairs slot).map fun (name, v) =>
    CSharp.callLine w.dialect "propertySet" method [w.sketch.literal name, value v]

def setUp (f : Slots) : List Code :=
  let set := w.sketch.propertySet f
  let scalars := set.get "scalarProperties"
  let vectors := set.get "vector2Properties"
  w.assignComment f ++
    if w.sketch.isEmptyTable scalars && w.sketch.isEmptyTable vectors then []
    else
      CSharp.declareLine w.dialect "propertySet" (CSharp.member w.dialect "result" "Properties") ::
        (w.insertValues "InsertScalar" w.float scalars ++
          w.insertValues "InsertVector2" w.vector2 vectors)

/-! ### Animations -/

/-- The animator that a statement is for, then the last one whose animation is started, and those
still to come. The controller of the last one may be fetched. -/
def animatorOf {ρ : Type} (last : Slots) (pending : List Slots) :
    Statement ρ → Slots × Slots × List Slots
  | .startAnimation _ _ _ => (pending.headD last, pending.headD last, pending.tail)
  | .fetchController _ _ _ _ => (last, last, pending)
  | _ => (pending.headD last, last, pending)

/-- Statements that start animations, each with the animator that it is for. -/
def matched {ρ : Type} :
    (last : Slots) → List Slots → List (Statement ρ) → List (Slots × Statement ρ)
  | _, _, [] => []
  | last, pending, statement :: rest =>
    let (animator, last, pending) := animatorOf last pending statement
    (animator, statement) :: matched last pending rest

def startStatement (animator : Slots) : Statement Access → Code
  | .assign .reusable "Expression" _ =>
    let animation := w.sketch.fields (animator.get "animation")
    CSharp.assignLine w.dialect CSharp.reusableField "Expression"
      (w.sketch.literal (animation.get "expression"))
  | .startAnimation target _ animation =>
    CSharp.startLine w.dialect target (w.sketch.literal (animator.get "animatedProperty"))
      (CSharp.operand w.dialect animation)
  | .fetchController declares depth target _ =>
    CSharp.fetchLine w.dialect declares depth target
      (w.sketch.literal (animator.get "animatedProperty"))
  | statement => CSharp.statement w.dialect statement

def startAnimations (r : Fin n) (f : Slots) (base : Base (Fin n)) (variant : Variant (Fin n)) :
    Writing (List Code) :=
  let (onProperties, own) := w.sketch.animatorSlots f
  let order := w.sketch.animatorOrder w.sketch.cells.size
  let started := if variant.startsAnimations then w.plan.startAnimations r base else []
  (matched [] (order onProperties ++ order own) started).mapM fun entry =>
    w.write (w.startStatement entry.1) entry.2

/-! ### Key frames -/

structure FrameStyle where
  value : Slot → Writing String
  describe : Slot → List Code := fun _ => []

/-- A key frame. All but those with an expression are written with their value. -/
def keyFrame (r : Fin n) (style : FrameStyle) (frame : Slots) : Writing (List Code) := do
  let progress := w.float (frame.get "progress")
  if frame.get "kind" == .text "expression" then
    let easing ← w.ask r (frame.get "easing")
    return [CSharp.callLine w.dialect "result" "InsertExpressionKeyFrame"
      [progress, w.sketch.literal (frame.get "expression"), easing]]
  else
    let value ← style.value (frame.get "value")
    let easing ← w.ask r (frame.get "easing")
    return style.describe (frame.get "value") ++
      [CSharp.callLine w.dialect "result" "InsertKeyFrame" [progress, value, easing]]

def keyFrames (r : Fin n) (style : FrameStyle) : List Slot → Writing (List Code)
  | [] => return []
  | slot :: rest => do
    let code ← w.keyFrame r style (w.sketch.fields slot)
    return code ++ (← keyFrames r style rest)

def frames (r : Fin n) (f : Slots) : Variant (Fin n) → Writing (List Code)
  | .colorAnimation _ _ =>
    inserted ⟨fun v => pure (w.color v), fun v => [.comment (w.sketch.colorName v)]⟩
  | .scalarAnimation _ _ => inserted { value := fun v => pure (w.float v) }
  | .vector2Animation _ _ => inserted { value := fun v => pure (w.vector2 v) }
  | .vector3Animation _ _ => inserted { value := fun v => pure (w.vector3 v) }
  | .pathAnimation _ _ => inserted { value := w.ask r }
  | _ => return []
where
  inserted (style : FrameStyle) : Writing (List Code) :=
    w.keyFrames r style (w.sketch.items (f.get "keyFrames"))

/-! ### Methods -/

def own (r : Fin n) (variant : Variant (Fin n)) : List (Statement (Request n)) :=
  (Construction.variantFactory w.plan w.settings r {} variant).statements

/-- The statements for the fields of a variant, apart from key frames. A table of children is
opened, though it has no items. -/
def fields (r : Fin n) (f : Slots) : Variant (Fin n) → List (Statement (Request n))
  | .containerVisual v => w.own r (.containerVisual v) ++ opened
  | .shapeVisual v shapes box =>
    w.own r (.containerVisual v) ++ opened ++ w.own r (.shapeVisual {} shapes box)
  | .colorAnimation p k => w.own r (.colorAnimation p ⟨k.duration, []⟩)
  | .scalarAnimation p k => w.own r (.scalarAnimation p ⟨k.duration, []⟩)
  | .vector2Animation p k => w.own r (.vector2Animation p ⟨k.duration, []⟩)
  | .vector3Animation p k => w.own r (.vector3Animation p ⟨k.duration, []⟩)
  | .pathAnimation p k => w.own r (.pathAnimation p ⟨k.duration, []⟩)
  | variant => w.own r variant
where
  opened : List (Statement (Request n)) :=
    if w.sketch.isEmptyTable (f.get "children") then [.openList .children] else []

def ownCode (r : Fin n) (f : Slots) (variant : Variant (Fin n)) : Writing (List Code) := do
  let fields ← (w.fields r f variant).mapM (w.write (w.statement f))
  return fields ++ (← w.frames r f variant)

def body (r : Fin n) (creation : String) (statements : List Code) : List Code :=
  CSharp.declareResult w.dialect w.plan.sites[r] creation :: statements ++ [CSharp.returnResult]

def compositionBody (r : Fin n) (f : Slots) (base : Base (Fin n)) (variant : Variant (Fin n)) :
    Writing (List Code) := do
  let factory := Construction.variantFactory w.plan w.settings r base variant
  let creation ← w.creation f <$> factory.creation.traverse w.plan.answer
  let own ← w.ownCode r f variant
  let animations ← w.startAnimations r f base variant
  if factory.bare then return CSharp.bareBody w.plan.sites[r] creation
  else return w.body r creation (w.setUp f ++ own ++ animations)

def pathCommand (slot : Slot) : Except Fault Code :=
  match w.sketch.toCommand? slot with
  | some (.endFigure _) =>
    let figureLoop := w.sketch.display ((w.sketch.fields slot).get "figureLoop")
    .ok (CSharp.builderLine (CSharp.call "EndFigure" [CSharp.figureLoop figureLoop]))
  | some command => .ok (CSharp.builderLine (CSharp.pathCommand command))
  | none => .error (.unsupported "path command" (w.sketch.tag slot))

def spelledMethod (r : Fin n) : Writing (List Code) := do
  let f := w.sketch.fields (w.slot r)
  let around := CSharp.methodAround w.plan.sites[r] (w.plan.merge.comment r)
  match w.plan.merge.object r with
  | .composition base variant => return around (← w.compositionBody r f base variant)
  | .canvas _ (.combination a b matrix _) => do
    let a ← w.plan.answer (w.plan.request r a)
    let b ← w.plan.answer (w.plan.request r b)
    return around (w.body r (CSharp.combine a.text b.text (CSharp.matrix matrix)
      (w.sketch.display (f.get "combineMode"))) [])
  | .canvas _ (.path _ _) => do
    let commands ← ((w.sketch.items (f.get "commands")).mapM w.pathCommand :
      Except Fault (List Code))
    let region := f.get "filledRegionDetermination"
    let choice :=
      if region.same (.text "Alternate") then []
      else [CSharp.regionLine (w.sketch.display region)]
    return around (CSharp.outlineResult w.dialect w.plan.sites[r] (choice ++ commands) ++
      [CSharp.returnResult])
  | _ => w.plan.method w.options r

def method (r : Fin n) : Writing (List Code) :=
  if w.sketch.isTyped (w.slot r) then w.plan.method w.options r else w.spelledMethod r

end Scribe

end SceneCompiler
