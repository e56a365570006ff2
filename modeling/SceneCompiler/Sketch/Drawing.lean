import SceneCompiler.Sketch.Key
import SceneCompiler.Sketch.Name
import SceneCompiler.Sketch.Writing

/-!
Drawings: the graph below an object of a sketch, as it is at one time.
-/

namespace SceneCompiler

structure Drawing where
  sketch : Sketch
  drafts : List (Slot × Draft Slot)
  graph : Graph drafts.length

namespace Sketch

variable (s : Sketch)

def typedCells : List Slot :=
  (List.range s.cells.size).filterMap fun address =>
    ((s.fields (.cell address)).lookup "type").map fun _ => .cell address

def drafts (root : Slot) : List (Slot × Draft Slot) :=
  let typed := s.typedCells
  let mentioned := typed.flatMap fun i =>
    match s.draft i with
    | .known o => o.references ++ animatorReferences o.animators
    | .unknown _ _ _ => []
  (root :: typed ++ mentioned).eraseDups.map fun i => (i, s.draft i)

def draw (root : Slot) : Except Fault Drawing :=
  let drafts := s.drafts root
  match root.present?.bind (Draft.place? drafts) with
  | none => .error (.noGraphNode 0)
  | some place => do
    let graph ← Draft.graph drafts place
    return ⟨s, drafts, graph⟩

def outside (slot : Slot) : Fault :=
  .outsideGraph (s.draft slot).typeName

end Sketch

namespace Drawing

variable (d : Drawing)

def place (slot : Slot) : Except Fault (Fin d.drafts.length) :=
  match (Draft.place? d.drafts slot).filter fun i => d.graph.contains i with
  | some i => .ok i
  | none => .error (d.sketch.outside slot)

def slot (i : Fin d.drafts.length) : Slot :=
  d.drafts[i].1

/-- The values of path key frames that are not followed, as they do not count as true. -/
def lostPaths (f : Slots) : List Slot :=
  let frames := (d.sketch.items (f.get "keyFrames")).map d.sketch.fields
  (frames.filter fun k => Sketch.hasValue k && !(k.get "value").toFlag).map (·.get "value")

/-- Looks for all that an object which may be merged is told apart by. -/
def checkKey (i : Fin d.drafts.length) : Except Fault Unit :=
  let f := d.sketch.fields (d.slot i)
  if f.get "type" == .text "PathKeyFrameAnimation" && !d.sketch.isAnimated f &&
      !d.sketch.hasProperties f then
    (d.lostPaths f).forM fun slot => discard (d.place slot)
  else .ok ()

def merge (keepComments : Bool) : Except Fault (Merge d.drafts.length) := do
  d.graph.order.forM d.checkKey
  return Merge.ofGraph d.graph fun i => d.sketch.atoms? keepComments (d.slot i)

/-- Names the type of the first animation outside the graph as the sketch has it. -/
def nameOutside (m : Merge d.drafts.length) (f : Fault) : Fault :=
  match f, m.bound.find? fun i => !m.graph.contains i with
  | .outsideGraph _, some i => .outsideGraph d.drafts[i].2.typeName
  | f, _ => f

def plan (keepComments : Bool) (construct : String) : Except Fault (Plan d.drafts.length) := do
  let m ← d.merge keepComments
  (Plan.named m (fun i => d.sketch.baseName (d.slot i)) construct).mapError (d.nameOutside m)

def compile (o : Options) : Except Fault (Compilation d.drafts.length) := do
  let plan ← d.plan o.setComments o.dialect.newOperator
  plan.write o (Scribe.method ⟨d.sketch, plan, o, d.slot, d.place⟩)

end Drawing

def Sketch.indexBelow (s : Sketch) (root : Slot) : Except Fault (Slot → Except Fault Nat) :=
  match root with
  | .absent => .ok fun slot => .error (s.outside slot)
  | root => do
    let d ← s.draw root
    return fun slot => (d.place slot).map d.graph.index

end SceneCompiler
