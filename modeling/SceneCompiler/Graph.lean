import SceneCompiler.Fault
import SceneCompiler.Model.Heap

/-!
Object graphs: the objects that a root reaches, in construction order, which is the order of first
visits of a depth-first walk along the references.
-/

namespace SceneCompiler

variable {n : Nat}

/-- A heap, the root in it, and the objects reached from the root in construction order. -/
structure Graph (n : Nat) where
  heap : Heap n
  root : Fin n
  order : List (Fin n)

namespace Graph

/-- Visits the objects of a stack, and before the rest of it what each of them refers to. What has
been seen is not put on the stack, but what is on it may be seen before its turn comes. -/
def walk (references : Fin n → List (Fin n)) :
    (fuel : Nat) → (stack seen : List (Fin n)) → List (Fin n)
  | 0, _, seen => seen
  | _ + 1, [], seen => seen
  | fuel + 1, i :: rest, seen =>
    if seen.contains i then walk references fuel rest seen
    else
      let seen := seen ++ [i]
      let unseen := (references i).filter fun r => !seen.contains r
      walk references fuel (unseen ++ rest) seen

/-- The steps of a walk are at most one more than the references. -/
def steps (references : Fin n → List (Fin n)) : Nat :=
  ((List.finRange n).flatMap references).length + 1

def depthFirst (references : Fin n → List (Fin n)) (root : Fin n) : List (Fin n) :=
  walk references (steps references) [root] []

def ofRoot (heap : Heap n) (root : Fin n) : Graph n :=
  ⟨heap, root, depthFirst (fun i => heap[i].references) root⟩

variable (g : Graph n)

def object (i : Fin n) : Object (Fin n) :=
  g.heap[i]

def index (i : Fin n) : Nat :=
  g.order.idxOf i

def contains (i : Fin n) : Bool :=
  g.order.contains i

def outReferences (i : Fin n) : List (Fin n) :=
  (g.object i).references

def inReferences (j : Fin n) : List (Fin n) :=
  g.order.flatMap fun i => (g.outReferences i).filterMap fun k => if k = j then some i else none

def find (i : Fin n) : Except Fault Nat :=
  if g.contains i then .ok (g.index i) else .error (.outsideGraph (g.object i).typeName)

def nodeAt (index : Number) : Except Fault (Fin n) :=
  match index.toNat?.bind (g.order[·]?) with
  | some i => .ok i
  | none => .error (.noGraphNode index)

end Graph

end SceneCompiler
