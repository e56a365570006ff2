import SceneCompiler.Model.Value
import SceneCompiler.Number.Reading
import SceneCompiler.Sketch
import SceneCompiler.Text.Quoted
import SceneCompiler.Text.UpperCase

/-!
What the slots of a sketch count as, whatever they hold: a truth value, a text, a number, items.
-/

namespace SceneCompiler

namespace Slot

def same : Slot → Slot → Bool
  | .number a, .number b => a.equals b
  | a, b => a == b

def toFlag : Slot → Bool
  | .absent => false
  | .null => false
  | .flag b => b
  | .number n => n != .nan && !n.equals 0
  | .integer n => n != 0
  | .text t => !t.isEmpty
  | .cell _ => true

def toText? : Slot → Option String
  | .text t => some t
  | _ => none

def toText (slot : Slot) : String :=
  slot.toText?.getD ""

def present? : Slot → Option Slot
  | .absent => none
  | slot => some slot

def orEmpty : Slot → Slot
  | .absent => .text ""
  | .null => .text ""
  | slot => slot

end Slot

namespace Sketch

variable (s : Sketch)

/-! ### Texts -/

/-- The text of a slot, with cells at most `fuel` deep. The absent and null items of a list are
empty. -/
def displayed : (fuel : Nat) → Slot → String
  | _, .absent => "undefined"
  | _, .null => "null"
  | _, .flag b => if b then "true" else "false"
  | _, .number n => n.text
  | _, .integer n => toString n
  | _, .text t => t
  | 0, .cell _ => ""
  | fuel + 1, .cell address =>
    match s.cells[address]? with
    | some (.list items) =>
      ",".intercalate (items.map fun i =>
        if i == .absent || i == .null then "" else displayed fuel i)
    | some (.table _) => "[object Map]"
    | _ => "[object Object]"

def display (slot : Slot) : String :=
  s.displayed s.cells.size slot

def tag (slot : Slot) : String :=
  match (s.fields slot).lookup "type" with
  | some type => s.display type
  | none => s.display slot

/-- The JSON text of a slot, with cells at most `fuel` deep; none of an absent one. What JSON
cannot write is null. -/
def json? : (fuel : Nat) → Slot → Option String
  | _, .absent => none
  | _, .null => some "null"
  | _, .flag b => some (if b then "true" else "false")
  | _, .number (.finite negative units h) => some (Number.finite negative units h).text
  | _, .number _ => some "null"
  | _, .integer n => some (toString n)
  | _, .text t => some (Text.quote t)
  | 0, .cell _ => none
  | fuel + 1, .cell address =>
    match s.cells[address]? with
    | some (.list items) =>
      some ("[" ++ ",".intercalate (items.map fun i => (json? fuel i).getD "null") ++ "]")
    | some (.record fields) =>
      some ("\x7b" ++ ",".intercalate ((Json.inReadingOrder fields).filterMap fun f =>
        (json? fuel f.2).map fun text => Text.quote f.1 ++ ":" ++ text) ++ "\x7d")
    | some (.table _) => some "\x7b\x7d"
    | none => none

def json (slot : Slot) : String :=
  (s.json? s.cells.size slot).getD "null"

def literal (slot : Slot) : String :=
  (s.json? s.cells.size slot).getD "undefined"

/-! ### Numbers -/

def toNumber : Slot → Number
  | .number n => n
  | .null => 0
  | .flag b => if b then 1 else 0
  | .text t => Number.ofText t
  | .cell address => Number.ofText (s.display (.cell address))
  | _ => .nan

def hexDigits (n : Int) : String :=
  String.ofList ((if n < 0 then ['-'] else []) ++ (Nat.toDigits 16 n.natAbs))

def capitals (text : String) : String :=
  let text := Text.upper text
  String.ofList (zeros (2 - (Text.units text).length)) ++ text

def hexText : Slot → String
  | .number n => n.hexText
  | .integer n => capitals (hexDigits n)
  | slot => capitals (s.display slot)

def toVector2 (slot : Slot) : Vector2 :=
  let f := s.fields slot
  ⟨s.toNumber (f.get "x"), s.toNumber (f.get "y")⟩

def toVector3 (slot : Slot) : Vector3 :=
  let f := s.fields slot
  ⟨s.toNumber (f.get "x"), s.toNumber (f.get "y"), s.toNumber (f.get "z")⟩

def toMatrix (slot : Slot) : Matrix3x2 :=
  let f := s.fields slot
  ⟨s.toNumber (f.get "m11"), s.toNumber (f.get "m12"), s.toNumber (f.get "m21"),
    s.toNumber (f.get "m22"), s.toNumber (f.get "m31"), s.toNumber (f.get "m32")⟩

def sameVector2 (a b : Slot) : Bool :=
  let f := s.fields a
  let g := s.fields b
  (f.get "x").same (g.get "x") && (f.get "y").same (g.get "y")

def isVector2 (slot : Slot) (x y : Number) : Bool :=
  let f := s.fields slot
  (f.get "x").same (.number x) && (f.get "y").same (.number y)

def channels (slot : Slot) : List String :=
  let f := s.fields slot
  ["a", "r", "g", "b"].map fun name => s.hexText (f.get name)

def colorHex (slot : Slot) : String :=
  String.join (s.channels slot)

def colorName (slot : Slot) : String :=
  Color.nameOfHex (s.colorHex slot)

def readColor (slot : Slot) : Color :=
  match s.cell? slot with
  | some (.list items) =>
    Color.ofParts fun start =>
      let part := (items.drop start).take 2
      Text.units (",".intercalate (part.map fun i => s.display i.orEmpty))
  | _ => Color.ofText (s.display slot)

/-! ### Items -/

/-- The items of a list, the characters of a text, or the entries of a table, each as its name and
value in one text. -/
def items (slot : Slot) : List Slot :=
  match slot with
  | .text t => t.toList.map fun c => .text (String.singleton c)
  | slot =>
    match s.cell? slot with
    | some (.list items) => items
    | some (.table entries) =>
      entries.map fun e => .text (e.1 ++ "," ++ s.display e.2.orEmpty)
    | _ => []

def values (slot : Slot) : Slots :=
  match s.cell? slot with
  | some (.table entries) => entries
  | some (.list items) => items.map fun item => ("", item)
  | _ => []

def pairs (slot : Slot) : List (Slot × Slot) :=
  match s.cell? slot with
  | some (.table entries) => entries.map fun e => (.text e.1, e.2)
  | some (.list items) =>
    items.map fun i =>
      let pair := s.items i
      (pair[0]?.getD .absent, pair[1]?.getD .absent)
  | _ => []

def isEmptyTable (slot : Slot) : Bool :=
  s.cell? slot == some (.table [])

def spread (slot : Slot) : Slots :=
  match slot, s.cell? slot with
  | .text _, _ => (s.items slot).mapIdx fun k item => (toString k, item)
  | _, some (.list items) => items.mapIdx fun k item => (toString k, item)
  | _, _ => s.fields slot

end Sketch

end SceneCompiler
