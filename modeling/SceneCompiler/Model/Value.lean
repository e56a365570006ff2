import SceneCompiler.Number.Hexadecimal
import SceneCompiler.Text.Units
import SceneCompiler.Text.Blank

/-!
The values that objects carry: vectors, matrices, colors and enumerations.
-/

namespace SceneCompiler

structure Vector2 where
  x : Number
  y : Number
deriving DecidableEq, Repr

structure Vector3 where
  x : Number
  y : Number
  z : Number
deriving DecidableEq, Repr

structure Matrix3x2 where
  m11 : Number := 1
  m12 : Number := 0
  m21 : Number := 0
  m22 : Number := 1
  m31 : Number := 0
  m32 : Number := 0
deriving DecidableEq, Repr

structure Color where
  a : Number
  r : Number
  g : Number
  b : Number
deriving DecidableEq, Repr

namespace Vector2

def equals (u v : Vector2) : Bool :=
  u.x.equals v.x && u.y.equals v.y

end Vector2

namespace Color

def hex (c : Color) : String :=
  c.a.hexText ++ c.r.hexText ++ c.g.hexText ++ c.b.hexText

def named : List (String × String) :=
  [("FF000000", "Black"), ("FF0000FF", "Blue"), ("FF00FFFF", "Aqua"), ("FF008000", "Green"),
   ("FF008080", "Teal"), ("FF000080", "Navy"), ("FF00FF00", "Lime"), ("FF800000", "Maroon"),
   ("FF800080", "Purple"), ("FF808000", "Olive"), ("FF808080", "Gray"), ("FFC0C0C0", "Silver"),
   ("FFFF0000", "Red"), ("FFFF00FF", "Fuchsia"), ("FFFFFF00", "Yellow"), ("FFFFFFFF", "White")]

def nameOfHex (hex : String) : String :=
  (named.lookup hex).getD hex

def name (c : Color) : String :=
  nameOfHex c.hex

def hexDigit? (unit : Nat) : Option Nat :=
  if 0x30 ≤ unit && unit ≤ 0x39 then some (unit - 0x30)
  else if 0x41 ≤ unit && unit ≤ 0x46 then some (unit - 0x41 + 10)
  else if 0x61 ≤ unit && unit ≤ 0x66 then some (unit - 0x61 + 10)
  else none

def isBlankUnit (unit : Nat) : Bool :=
  Text.isBlankChar (Char.ofNat unit)

def takeSign : List Nat → Bool × List Nat
  | 0x2B :: rest => (false, rest)
  | 0x2D :: rest => (true, rest)
  | rest => (false, rest)

def dropMark : List Nat → List Nat
  | 0x30 :: 0x78 :: rest => rest
  | 0x30 :: 0x58 :: rest => rest
  | rest => rest

/--
The hexadecimal number that code units begin with, after blanks, a sign and a mark; not a number
where there is no digit.
-/
def readHex (units : List Nat) : Number :=
  let (negative, rest) := takeSign (units.dropWhile isBlankUnit)
  let digits := ((dropMark rest).map hexDigit?).takeWhile Option.isSome
  if digits.isEmpty then .nan
  else Number.ofRatio negative (digits.foldl (fun n d => 16 * n + d.getD 0) 0) 1

def ofParts (part : Nat → List Nat) : Color :=
  ⟨readHex (part 1), readHex (part 3), readHex (part 5), readHex (part 7)⟩

def ofText (text : String) : Color :=
  ofParts fun start => ((Text.units text).drop start).take 2

end Color

inductive StrokeCap where
  | flat | square | round | triangle
deriving DecidableEq, Repr

inductive LineJoin where
  | miter | bevel | round | miterOrBevel
deriving DecidableEq, Repr

inductive CombineMode where
  | union | intersect | xor | exclude
deriving DecidableEq, Repr

inductive FilledRegion where
  | alternate | winding
deriving DecidableEq, Repr

inductive FigureLoop where
  | opened | closed
deriving DecidableEq, Repr

class Named (α : Type) where
  members : List α
  name : α → String

def Named.find? {α : Type} [Named α] (text : String) : Option α :=
  (Named.members (α := α)).find? fun a => Named.name a == text

instance : Named StrokeCap where
  members := [.flat, .square, .round, .triangle]
  name
    | .flat => "Flat"
    | .square => "Square"
    | .round => "Round"
    | .triangle => "Triangle"

instance : Named LineJoin where
  members := [.miter, .bevel, .round, .miterOrBevel]
  name
    | .miter => "Miter"
    | .bevel => "Bevel"
    | .round => "Round"
    | .miterOrBevel => "MiterOrBevel"

instance : Named CombineMode where
  members := [.union, .intersect, .xor, .exclude]
  name
    | .union => "Union"
    | .intersect => "Intersect"
    | .xor => "Xor"
    | .exclude => "Exclude"

instance : Named FilledRegion where
  members := [.alternate, .winding]
  name
    | .alternate => "Alternate"
    | .winding => "Winding"

instance : Named FigureLoop where
  members := [.opened, .closed]
  name
    | .opened => "Open"
    | .closed => "Closed"

end SceneCompiler
