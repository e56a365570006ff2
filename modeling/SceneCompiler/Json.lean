import SceneCompiler.Number.Text

/-!
JSON values. The members of an object are in the order in which a reader sees them: keys that are
array indices first and ascending, the others as they were first written.
-/

namespace SceneCompiler

inductive Json where
  | null
  | bool (value : Bool)
  | number (value : Number)
  | string (value : String)
  | array (items : List Json)
  | object (members : List (String × Json))
deriving Repr

namespace Json

def typeName : Json → String
  | .null => "null"
  | .bool _ => "boolean"
  | .number _ => "number"
  | .string _ => "string"
  | .array _ => "array"
  | .object _ => "object"

def index? (key : String) : Option Nat :=
  let digits := key.toList
  let canonical :=
    match digits with
    | [] => false
    | ['0'] => true
    | d :: _ => d != '0'
  if canonical && digits.all Char.isDigit then
    let n := digits.foldl (fun n c => 10 * n + (c.toNat - '0'.toNat)) 0
    if n < 4294967295 then some n else none
  else none

def setMember (members : List (String × Json)) (key : String) (value : Json) :
    List (String × Json) :=
  if members.any (fun m => m.1 == key) then
    members.map fun m => if m.1 == key then (key, value) else m
  else members ++ [(key, value)]

def inReadingOrder {α : Type} (members : List (String × α)) : List (String × α) :=
  let indexed := members.filterMap fun m => (index? m.1).map fun i => (i, m)
  (indexed.mergeSort fun a b => a.1 ≤ b.1).map (·.2) ++
    members.filter fun m => (index? m.1).isNone

/-- Members in reading order, for members as written. A later value of a key replaces an earlier. -/
def arrange (written : List (String × Json)) : List (String × Json) :=
  inReadingOrder (written.foldl (fun ms m => setMember ms m.1 m.2) [])

mutual
/--
The text of a value inside a message: a list is its elements joined by commas, an absent element
being empty, and an object has one fixed text.
-/
def display : Json → String
  | .null => "null"
  | .bool b => if b then "true" else "false"
  | .number n => n.text
  | .string s => s
  | .array items => String.intercalate "," (displayItems items)
  | .object _ => "[object Object]"
def displayItems : List Json → List String
  | [] => []
  | .null :: rest => "" :: displayItems rest
  | item :: rest => display item :: displayItems rest
end

def tag : Option Json → String
  | none => "undefined"
  | some (.object members) => ((members.lookup "type").getD (.object members)).display
  | some value => value.display

end Json

end SceneCompiler
