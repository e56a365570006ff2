import SceneCompiler.Json
import SceneCompiler.Sketch.Datum

/-!
Sketches: objects that are put together by hand, shared by reference, and changed field by field.
Every list, record and table is a cell of its own, so that a change is seen wherever the cell is
used. A name stands for what it was last given to.
-/

namespace SceneCompiler

/-- What a list, record or table holds: a plain value, or a cell. -/
inductive Slot where
  | absent
  | null
  | flag (value : Bool)
  | number (value : Number)
  | integer (value : Int)
  | text (value : String)
  | cell (address : Nat)
deriving DecidableEq, Repr

abbrev Slots := List (String × Slot)

namespace Slots

def get (slots : Slots) (name : String) : Slot :=
  (slots.lookup name).getD .absent

def set : Slots → String → Slot → Slots
  | [], name, value => [(name, value)]
  | (other, old) :: rest, name, value =>
    if other = name then (name, value) :: rest else (other, old) :: set rest name value

def present (slots : Slots) : Slots :=
  slots.filter fun slot => slot.2 != .absent

def setAll (slots more : Slots) : Slots :=
  more.foldl (fun all slot => all.set slot.1 slot.2) slots

end Slots

inductive Cell where
  | list (items : List Slot)
  | record (fields : Slots)
  | table (entries : Slots)
deriving DecidableEq, Repr

def Cell.set (name : String) (value : Slot) : Cell → Cell
  | .record fields => .record (fields.set name value)
  | .list items =>
    match Json.index? name with
    | some k =>
      if k < items.length then .list (items.set k value)
      else if k = items.length then .list (items ++ [value])
      else .list items
    | none => .list items
  | .table entries => .table entries

structure Sketch where
  cells : Array Cell := #[]
  names : List (String × Slot) := []
deriving Repr

namespace Sketch

variable (s : Sketch)

def cell? : Slot → Option Cell
  | .cell address => s.cells[address]?
  | _ => none

def fields (slot : Slot) : Slots :=
  match s.cell? slot with
  | some (.record fields) => fields
  | _ => []

def entries (slot : Slot) : Slots :=
  match s.cell? slot with
  | some (.table entries) => entries
  | _ => []

def listItems (slot : Slot) : List Slot :=
  match s.cell? slot with
  | some (.list items) => items
  | _ => []

def ownerName? (name : String) : Option String :=
  let ending := ".properties".toList
  let chars := name.toList
  if ending.isSuffixOf chars then some (String.ofList (chars.take (chars.length - ending.length)))
  else none

/-- What a name stands for. The name `x.properties` stands for the property set of the object
`x`. -/
def find (name : String) : Slot :=
  match (ownerName? name).bind (fun owner => s.names.lookup owner) with
  | some owner => (s.fields owner).get "properties"
  | none => (s.names.lookup name).getD .absent

/-! ### Changes -/

def allocate (cell : Cell) : Slot × Sketch :=
  (.cell s.cells.size, { s with cells := s.cells.push cell })

def modify (slot : Slot) (f : Cell → Cell) : Sketch :=
  match slot with
  | .cell address => { s with cells := s.cells.modify address f }
  | _ => s

mutual
def store (s : Sketch) : Datum → Slot × Sketch
  | .absent => (.absent, s)
  | .null => (.null, s)
  | .flag b => (.flag b, s)
  | .number n => (.number n, s)
  | .integer n => (.integer n, s)
  | .text t => (.text t, s)
  | .list items =>
    let (slots, s) := storeAll s items
    s.allocate (.list slots)
  | .record fields =>
    let (slots, s) := storeFields s fields
    s.allocate (.record slots)
  | .table entries =>
    let (slots, s) := storeFields s entries
    s.allocate (.table (Slots.setAll [] slots))
  | .ref name => (s.find name, s)
def storeAll (s : Sketch) : List Datum → List Slot × Sketch
  | [] => ([], s)
  | d :: rest =>
    let (slot, s) := store s d
    let (slots, s) := storeAll s rest
    (slot :: slots, s)
def storeFields (s : Sketch) : List (String × Datum) → Slots × Sketch
  | [] => ([], s)
  | (name, d) :: rest =>
    let (slot, s) := store s d
    let (slots, s) := storeFields s rest
    ((name, slot) :: slots, s)
end

def bind (name : String) (slot : Slot) : Sketch :=
  { s with names := (name, slot) :: s.names }

def setField (target : Slot) (name : String) (value : Datum) : Sketch :=
  let (slot, s) := s.store value
  s.modify target (Cell.set name slot)

def unsetField (target : Slot) (name : String) : Sketch :=
  s.modify target fun
    | .record fields => .record (fields.filter fun f => f.1 != name)
    | cell => cell

def push (target : Slot) (list : String) (items : List Datum) : Sketch :=
  let (slots, s) := s.storeAll items
  s.modify ((s.fields target).get list) fun
    | .list items => .list (items ++ slots)
    | cell => cell

def putEntry (target : Slot) (table key : String) (value : Datum) : Sketch :=
  let (slot, s) := s.store value
  s.modify ((s.fields target).get table) fun
    | .table entries => .table (entries.set key slot)
    | cell => cell

def animate (target : Slot) (property animation controller : Datum) : Sketch :=
  s.push target "animators"
    [.record [("animatedProperty", property), ("animation", animation),
      ("controller", controller)]]

/-! ### Views -/

/-- How a cell is shown inside others, if by a name: an object by the newest one it has, or by a
question mark. A property set or a controller is a part of what holds it. -/
def label? (address : Nat) : Option String :=
  match (s.fields (.cell address)).get "type" with
  | .text type =>
    if type == "CompositionPropertySet" || type == "AnimationController" then none
    else some (((s.names.find? fun n => n.2 == .cell address).map (·.1)).getD "?")
  | _ => none

def contents (f : Slot → Datum) (address : Nat) : Datum :=
  match s.cells[address]? with
  | some (.list items) => .list (items.map f)
  | some (.record fields) => .record (fields.map fun e => (e.1, f e.2))
  | some (.table entries) => .table (entries.map fun e => (e.1, f e.2))
  | none => .absent

def view : (fuel : Nat) → Slot → Datum
  | _, .absent => .absent
  | _, .null => .null
  | _, .flag b => .flag b
  | _, .number n => .number n
  | _, .integer n => .integer n
  | _, .text t => .text t
  | 0, .cell _ => .absent
  | fuel + 1, .cell address =>
    match s.label? address with
    | some name => .text ("@" ++ name)
    | none => s.contents (view fuel) address

def shown (slot : Slot) : Datum :=
  s.view s.cells.size slot

def shownObject : Slot → Datum
  | .cell address => s.contents s.shown address
  | slot => s.shown slot

end Sketch

end SceneCompiler
