import SceneCompiler.Graph

/-!
Drafts: objects put together by hand, which may be of a type that the model does not have.
-/

namespace SceneCompiler

inductive Draft (ρ : Type) where
  | known (object : Object ρ)
  | unknown (what tag type : String)
deriving Repr

namespace Draft

variable {ρ : Type}

def typeName : Draft ρ → String
  | .known o => o.typeName
  | .unknown _ _ type => type

def known? : Draft ρ → Except Fault (Object ρ)
  | .known o => .ok o
  | .unknown what tag _ => .error (.unsupported what tag)

def references : Draft ρ → List ρ
  | .known o => o.references
  | .unknown _ _ _ => []

def blank (n : Nat) : Object (Fin n) :=
  .composition {} .linearEasing

/-- A draft with its references replaced by places, where it is known and all of them are. -/
def placed {n : Nat} (place : ρ → Option (Fin n)) : Draft ρ → Object (Fin n)
  | .known o => (o.replace place).getD (blank n)
  | .unknown _ _ _ => blank n

variable [DecidableEq ρ]

def place? (drafts : List (ρ × Draft ρ)) (r : ρ) : Option (Fin drafts.length) :=
  ((drafts.map (·.1)).finIdxOf? r).map (Fin.cast (by simp))

/--
The graph of drafts below a root. An unknown type among those that the root reaches is a fault,
the first in construction order.
-/
def graph (drafts : List (ρ × Draft ρ)) (root : Fin drafts.length) :
    Except Fault (Graph drafts.length) := do
  let heap : Heap drafts.length := Vector.ofFn fun i => drafts[i].2.placed (place? drafts)
  let graph := Graph.ofRoot heap root
  graph.order.forM fun i => discard drafts[i].2.known?
  return graph

end Draft

end SceneCompiler
