import SceneCompiler.Merge
import SceneCompiler.Text.Blank

/-!
Where an object comes from: the short descriptions of the objects that contain it.
-/

namespace SceneCompiler.Merge

variable {n : Nat} (m : Merge n)

def soleReferencer? (i : Fin n) : Option (Fin n) :=
  match m.inReferences i with
  | [] => none
  | parent :: rest => if rest.all (· == parent) then some parent else none

/--
The chain of sole referencers of an object that have a short description, nearest first. It ends
before an object that is already on it.
-/
def chain : (fuel : Nat) → (visited : List (Fin n)) → Fin n → List String
  | 0, _, _ => []
  | fuel + 1, visited, i =>
    match m.soleReferencer? i with
    | none => []
    | some parent =>
      if visited.contains parent then []
      else
        match Text.present? (m.object parent).description.short with
        | none => []
        | some short => short :: chain fuel (parent :: visited) parent

def ancestors (i : Fin n) : List String :=
  (m.chain n [i] i).reverse

def comment (i : Fin n) : String :=
  let indented := m.ancestors i |>.mapIdx fun depth text =>
    String.ofList (List.replicate (2 * depth) ' ') ++ text
  "\n".intercalate (indented ++ (Text.present? (m.object i).description.long).toList)

end SceneCompiler.Merge
