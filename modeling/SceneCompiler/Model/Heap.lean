import SceneCompiler.Model.Reference

/-!
Heaps: objects in places, with every reference a place of the same heap.
-/

namespace SceneCompiler

/-- Every place below `n` is one of a vector of length `n`, so that reading it takes no proof. -/
instance readPlace {α : Type} {n : Nat} :
    GetElem (Vector α n) (Fin n) α (fun _ _ => True) where
  getElem xs i _ := xs.get i

@[simp]
theorem getElem_place {α : Type} {n : Nat} (xs : Vector α n) (i : Fin n) : xs[i] = xs[i.val] :=
  rfl

/-- `n` objects that refer to each other by place. -/
abbrev Heap (n : Nat) := Vector (Object (Fin n)) n

namespace Heap

def place? (n address : Nat) : Option (Fin n) :=
  if h : address < n then some ⟨address, h⟩ else none

def ofObjects? (objects : List (Object Nat)) : Option (Heap objects.length) :=
  match replaceAll (fun o => o.replace (place? objects.length)) objects with
  | some placed =>
    if h : placed.length = objects.length then some ⟨placed.toArray, by simpa using h⟩ else none
  | none => none

end Heap

end SceneCompiler
