import SceneCompiler.Document.Issue
import SceneCompiler.Json
import SceneCompiler.Model.Value

/-!
Readings: a value read from JSON together with every issue met on the way. A value of the wrong
form gives no result, which is always an issue; one that only fails a check is still read.
-/

namespace SceneCompiler

abbrev KeyPath := List String

def KeyPath.text (path : KeyPath) : String :=
  let joined := ".".intercalate path
  if joined.isEmpty then "(document)" else joined

structure Reading (α : Type) where
  value : Option α
  issues : List Issue
  reported : value = none → issues ≠ []

abbrev Reader (α : Type) := KeyPath → Json → Reading α

namespace Reading

variable {α β : Type}

theorem reported_some (a : α) (issues : List Issue) : some a = none → issues ≠ [] :=
  fun h => nomatch h

theorem reported_reject (issue : Issue) : (none : Option α) = none → [issue] ≠ [] :=
  fun _ => List.cons_ne_nil issue []

theorem reported_map (f : α → β) (r : Reading α) : r.value.map f = none → r.issues ≠ [] :=
  fun h => r.reported (Option.map_eq_none_iff.mp h)

def found (a : α) (issues : List Issue) : Reading α :=
  ⟨some a, issues, reported_some a issues⟩

def reject (path : KeyPath) (message : String) : Reading α :=
  let issue : Issue := ⟨path.text, message⟩
  ⟨none, [issue], reported_reject issue⟩

def wrongType (path : KeyPath) (expected : String) (found : Json) : Reading α :=
  reject path ("Expected " ++ expected ++ ", received " ++ found.typeName)

theorem reported_seq (f : Reading (α → β)) (r : Reading α) :
    (f.value.bind fun g => r.value.map g) = none → f.issues ++ r.issues ≠ [] := by
  cases hf : f.value with
  | none => simp [f.reported hf]
  | some g => simpa using fun h _ => r.reported h

def later (f : α → Reading β) : Option α → List Issue
  | some a => (f a).issues
  | none => []

theorem reported_andThen (r : Reading α) (f : α → Reading β) :
    (r.value.bind fun a => (f a).value) = none → r.issues ++ later f r.value ≠ [] := by
  cases hr : r.value with
  | none => simp [r.reported hr]
  | some a => simpa [later] using fun h _ => (f a).reported h

def andThen (r : Reading α) (f : α → Reading β) : Reading β :=
  ⟨r.value.bind fun a => (f a).value, r.issues ++ later f r.value, reported_andThen r f⟩

/-- All issues of the parts are kept, in order; the whole needs the value of each part. -/
instance : Applicative Reading where
  pure a := found a []
  map f r := ⟨r.value.map f, r.issues, reported_map f r⟩
  seq f r :=
    let s := r ()
    ⟨f.value.bind fun g => s.value.map g, f.issues ++ s.issues, reported_seq f s⟩

def check (test : α → Bool) (path : KeyPath) (message : String) (r : Reading α) : Reading α :=
  r.andThen fun a => if test a then pure a else found a [⟨path.text, message⟩]

end Reading

namespace Reader

variable {α : Type}

def string : Reader String
  | _, .string s => pure s
  | path, j => Reading.wrongType path "string" j

def number : Reader Number
  | _, .number n => pure n
  | path, j => Reading.wrongType path "number" j

def bool : Reader Bool
  | _, .bool b => pure b
  | path, j => Reading.wrongType path "boolean" j

def check (test : α → Bool) (message : String) (r : Reader α) : Reader α :=
  fun path j => (r path j).check test path message

def listFrom (r : Reader α) (path : KeyPath) : Nat → List Json → Reading (List α)
  | _, [] => pure []
  | i, item :: rest =>
    List.cons <$> r (path ++ [toString i]) item <*> listFrom r path (i + 1) rest

def list (r : Reader α) : Reader (List α)
  | path, .array items => listFrom r path 0 items
  | path, j => Reading.wrongType path "array" j

def membersOf (r : Reader α) (path : KeyPath) : List (String × Json) → Reading (List (String × α))
  | [] => pure []
  | (key, value) :: rest =>
    (fun a others => (key, a) :: others) <$> r (path ++ [key]) value <*> membersOf r path rest

/-- A map by key. The key `__proto__` is read like any other and then left out. -/
def map (r : Reader α) : Reader (List (String × α))
  | path, .object members =>
    List.filter (fun m => m.1 != "__proto__") <$> membersOf r path members
  | path, j => Reading.wrongType path "object" j

def alternatives (names : List String) : String :=
  " | ".intercalate (names.map fun n => "'" ++ n ++ "'")

def named [Named α] : Reader α :=
  let expected := alternatives ((Named.members (α := α)).map Named.name)
  let invalid (path : KeyPath) (received : String) : Reading α :=
    Reading.reject path
      ("Invalid enum value. Expected " ++ expected ++ ", received '" ++ received ++ "'")
  fun path j =>
    match j with
    | .string s =>
      match Named.find? s with
      | some a => pure a
      | none => invalid path s
    | .number n => invalid path n.text
    | j => Reading.wrongType path expected j

end Reader

structure Fields where
  path : KeyPath
  members : List (String × Json)

namespace Fields

variable {α : Type}

def required (f : Fields) (key : String) (r : Reader α) : Reading α :=
  match f.members.lookup key with
  | some j => r (f.path ++ [key]) j
  | none => Reading.reject (f.path ++ [key]) "Required"

def optional (f : Fields) (key : String) (r : Reader α) : Reading (Option α) :=
  match f.members.lookup key with
  | some j => some <$> r (f.path ++ [key]) j
  | none => pure none

def withDefault (f : Fields) (key : String) (default : α) (r : Reader α) : Reading α :=
  (fun a => a.getD default) <$> f.optional key r

end Fields

namespace Reader

variable {α : Type}

def object (r : Fields → Reading α) : Reader α
  | path, .object members => r ⟨path, members⟩
  | path, j => Reading.wrongType path "object" j

def tagged (key : String) (options : List (String × (Fields → Reading α))) : Reader α :=
  object fun f =>
    let tag :=
      match f.members.lookup key with
      | some (.string s) => options.lookup s
      | _ => none
    match tag with
    | some r => r f
    | none =>
      Reading.reject (f.path ++ [key])
        ("Invalid discriminator value. Expected " ++ alternatives (options.map (·.1)))

end Reader

end SceneCompiler
