import SceneCompiler.Ancestry
import SceneCompiler.CSharp.SourceFile
import SceneCompiler.Factory.Construction
import SceneCompiler.Factory.Resolution

/-!
Compilation: from a root to the code that builds what it reaches.
-/

namespace SceneCompiler

structure Options where
  className : String
  nameSpace : String := "AnimatedVisuals"
  width : Number
  height : Number
  durationMs : Number
  setComments : Bool := false
  dialect : CSharp.Dialect := {}
deriving DecidableEq, Repr

structure Compilation (n : Nat) where
  plan : Plan n
  calls : Calls
  code : String

variable {n : Nat}

def Plan.answer (p : Plan n) (request : Request n) : StateT Calls (Except Fault) Access :=
  fun calls => resolve calls p.sites[request.caller] p.sites[request.callee]

def Plan.method (p : Plan n) (o : Options) (r : Fin n) :
    StateT Calls (Except Fault) (List Code) := do
  let factory ← (p.factory ⟨o.durationMs, o.setComments⟩ r).traverse p.answer
  return CSharp.method o.dialect p.sites[r] (p.merge.comment r) factory

def Plan.methods (p : Plan n) (method : Fin n → StateT Calls (Except Fault) (List Code)) :
    StateT Calls (Except Fault) (List Code) := do
  let methods ← p.withFactory.mapM method
  return methods.flatten

def Plan.sourceFile (p : Plan n) (o : Options) (methods : List Code) : CSharp.SourceFile :=
  let values := (p.merge.object p.root).values
  { className := o.className
    nameSpace := o.nameSpace
    size := ⟨o.width, o.height⟩
    durationTicks := CSharp.ticks o.durationMs
    propertyNames := values.scalars.map (·.1) ++ values.vector2s.map (·.1)
    usesGeometryLibrary := p.withFactory.any fun r => (p.merge.object r).kind == "CanvasGeometry"
    root := p.sites[p.root]
    stored := p.withField.map fun r => p.sites[r]
    methods := methods }

/-- Writes the code of a plan, each method by `method`. The root has to be a visual. -/
def Plan.write (p : Plan n) (o : Options)
    (method : Fin n → StateT Calls (Except Fault) (List Code)) : Except Fault (Compilation n) := do
  let top := p.merge.object p.root
  if top.isVisual then
    let (methods, calls) ← (p.methods method).run p.calls
    return ⟨p, calls, Code.render ((p.sourceFile o methods).code o.dialect)⟩
  else
    throw (.rootNotVisual top.typeName)

def Graph.compile (g : Graph n) (o : Options) : Except Fault (Compilation n) := do
  let merge := Merge.ofGraph g (g.atoms o.setComments)
  let plan ← Plan.ofMerge merge o.dialect.newOperator
  plan.write o (plan.method o)

def compile (heap : Heap n) (root : Fin n) (o : Options) : Except Fault (Compilation n) :=
  (Graph.ofRoot heap root).compile o

end SceneCompiler
