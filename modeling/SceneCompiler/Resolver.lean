import SceneCompiler.Fault
import SceneCompiler.Text.LowerCase
import SceneCompiler.Text.Units

/-!
How one factory obtains the object of another. Factories run in construction order, so an object
whose index does not exceed the caller's has been built before and is read from its field.
-/

namespace SceneCompiler

class Ordinal (ι : Type) where
  le : ι → ι → Bool
  text : ι → String

instance : Ordinal Nat where
  le a b := a ≤ b
  text n := toString n

instance : Ordinal Number where
  le := Number.le
  text := Number.text

def Ordinal.ofNumber (n : Number) : Number :=
  if n.equals 0 then 0 else n

/-- What is decided about an object before its code is written. -/
structure Site (ι : Type := Nat) where
  index : ι
  typeName : String
  name : String := ""
  retained : Bool := true
  stored : Bool := false
  inline : Option String := none
deriving DecidableEq, Repr

namespace Site

variable {ι : Type}

def label [Ordinal ι] (s : Site ι) : String :=
  if s.name.isEmpty then s.typeName ++ "#" ++ Ordinal.text s.index else s.name

def fieldName (s : Site ι) : String :=
  match s.name.toList with
  | [] => "_"
  | c :: rest => String.ofList ('_' :: (Text.lowerChar c ++ rest))

def factoryCall (s : Site ι) : String :=
  s.inline.getD (s.name ++ "()")

def hasFactory (s : Site ι) : Bool :=
  s.retained && s.inline.isNone

def sortByName (sites : List (Site ι)) : List (Site ι) :=
  sites.mergeSort fun a b => Text.le a.name b.name

end Site

inductive Access where
  | inline (text : String)
  | field (text : String)
  | factoryCall (text : String)
deriving DecidableEq, Repr

namespace Access

def text : Access → String
  | .inline text => text
  | .field text => text
  | .factoryCall text => text

def kind : Access → String
  | .inline _ => "inline"
  | .field _ => "field"
  | .factoryCall _ => "factoryCall"

end Access

abbrev Calls (ι : Type := Nat) := List (ι × ι)

/--
The access of a caller to a callee, and the calls made then. A caller calls a factory at most
once; after that it reads the field.
-/
def resolve {ι : Type} [DecidableEq ι] [Ordinal ι] (calls : Calls ι) (caller callee : Site ι) :
    Except Fault (Access × Calls ι) :=
  match callee.inline with
  | some text => .ok (.inline text, calls)
  | none =>
    if !callee.retained then .error (.noFactory caller.label callee.label)
    else if Ordinal.le callee.index caller.index then
      if callee.stored then .ok (.field callee.fieldName, calls)
      else .error (.missingStorage caller.label callee.label)
    else if calls.contains (caller.index, callee.index) then
      if callee.stored then .ok (.field callee.fieldName, calls)
      else .error (.duplicateCall caller.label callee.label)
    else .ok (.factoryCall callee.factoryCall, calls ++ [(caller.index, callee.index)])

namespace Resolver

/-- A request: who asks for what, the calls made before it, its answer, and the calls made then. -/
structure Step (ι : Type := Nat) where
  caller : Site ι
  callee : Site ι
  before : Calls ι
  answer : Except Fault Access
  after : Calls ι

variable {ι : Type} [DecidableEq ι] [Ordinal ι]

def step (calls : Calls ι) (caller callee : Site ι) : Step ι :=
  match resolve calls caller callee with
  | .ok (access, made) => ⟨caller, callee, calls, .ok access, made⟩
  | .error fault => ⟨caller, callee, calls, .error fault, calls⟩

def run : (calls : Calls ι) → (requests : List (Site ι × Site ι)) → List (Step ι)
  | _, [] => []
  | calls, (caller, callee) :: rest =>
    step calls caller callee :: run (step calls caller callee).after rest

end Resolver

end SceneCompiler
