import SceneCompiler.Document
import SceneCompiler.Document.Link

/-!
Linking: building the objects of a document from its records, from the root on, and reporting the
mentions that do not hold. A record is created once. A record that could not be created is
remembered, and later mentions of it are not reported again.
-/

namespace SceneCompiler

abbrev Records := List (String × Object String)

/-- A collection of a record that is still to be filled in. -/
structure Fill where
  path : String
  target : Nat
  content : Content String
deriving Repr

structure Linking where
  created : List (String × Option Nat) := []
  /-- The objects by address. They refer to each other by address. -/
  objects : List (Object Nat) := []
  pending : List Fill := []
  issues : List Issue := []
deriving Repr

abbrev Link := StateM Linking

namespace Linking

def placeOf (id : String) : String :=
  "objects." ++ id

def report (path message : String) : Link Unit :=
  modify fun s => { s with issues := s.issues ++ [⟨path, message⟩] }

def cycle (id : String) (creating : List String) : List String :=
  ((creating.takeWhile (· != id)) ++ [id]).reverse ++ [id]

def demand (mention : Mention) : Option Nat → Link (Option Nat)
  | none => return none
  | some address => do
    match (← get).objects[address]? with
    | none => return none
    | some o =>
      if mention.demand.admits o then return some address
      else
        report mention.path
          ("Expected " ++ mention.demand.phrase ++ ", got " ++ o.typeName ++
            " \"" ++ mention.id ++ "\"")
        return none

def allocate (id : String) (o : Object String) : Option (Object Nat) → Link (Option Nat)
  | none => do
    modify fun s => { s with created := s.created ++ [(id, none)] }
    return none
  | some object => do
    let address := (← get).objects.length
    modify fun s => { s with
      created := s.created ++ [(id, some address)]
      objects := s.objects ++ [object]
      pending := s.pending ++ o.contents.map (Fill.mk (placeOf id) address) }
    return some address

/--
Looks up a record, creating it at its first mention. `creating` holds the records that are being
created, innermost first. As they are distinct, the look-ups inside one another are at most one
more than the records, which `fuel` bounds.
-/
def lookUp (records : Records) : (fuel : Nat) → (creating : List String) → (id path : String) →
    Link (Option Nat)
  | 0, _, _, _ => return none
  | fuel + 1, creating, id, path => do
    match (← get).created.lookup id with
    | some found => return found
    | none =>
      match records.lookup id with
      | none =>
        report path ("Unknown object id \"" ++ id ++ "\"")
        return none
      | some o =>
        if creating.contains id then
          report path ("Reference cycle: " ++ " -> ".intercalate (cycle id creating))
          return none
        else
          let object ←
            o.create
              (fun mention => do
                demand mention (← lookUp records fuel (id :: creating) mention.id mention.path))
              (placeOf id)
          allocate id o object

def follow (records : Records) (mention : Mention) : Link (Option Nat) := do
  demand mention (← lookUp records (records.length + 1) [] mention.id mention.path)

def fill (records : Records) (f : Fill) : Link Unit := do
  let content ← f.content.resolve (follow records) f.path
  modify fun s => { s with objects := s.objects.modify f.target (·.add content) }

def drain (records : Records) : (fuel : Nat) → Link Unit
  | 0 => return
  | fuel + 1 => do
    match (← get).pending with
    | [] => return
    | f :: rest =>
      modify fun s => { s with pending := rest }
      fill records f
      drain records fuel

/-- No more collections than the records have can ever be pending. -/
def settle (records : Records) : Link Unit :=
  drain records (records.flatMap fun r => r.2.contents).length

def linkAll (records : Records) : Records → Link Unit
  | [] => return
  | r :: rest => do
    let _ ← lookUp records (records.length + 1) [] r.1 (placeOf r.1)
    settle records
    linkAll records rest

/-- Links the root, a visual, and then every record it does not reach. -/
def run (records : Records) (root : String) : Link (Option Nat) := do
  let found ← follow records ⟨"root", root, .visual⟩
  settle records
  linkAll records records
  return found

end Linking

end SceneCompiler
