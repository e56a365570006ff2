import SceneCompiler.Model.Value
import SceneCompiler.Number.Scientific
import SceneCompiler.Text.Quoted

/-!
Literals and constructor calls for values.
-/

namespace SceneCompiler.CSharp

def toNinePlaces : Number → Number
  | .finite negative units h =>
    if units = 0 then .finite negative units h
    else (Decimal.significant units 9).toNumber negative
  | n => n

/--
A float. A whole number below 10^21 is written with all its digits, and any other number with nine
significant ones and the suffix of single precision; none with an exponent.
-/
def float (n : Number) : String :=
  match n with
  | .finite negative units _ =>
    if units = 0 then "0"
    else if units % Number.one = 0 then
      if units < Nat.pow 10 21 * Number.one then
        String.ofList ((if negative then ['-'] else []) ++ Nat.toDigits 10 (units / Number.one))
      else String.ofList (expandExponent (n.chars false))
    else String.ofList (expandExponent ((toNinePlaces n).chars false) ++ ['F'])
  | .infinite _ => n.text
  | .nan => "NaNF"

def integer (n : Number) : String :=
  n.truncate.text

def call (name : String) (arguments : List String) : String :=
  name ++ "(" ++ ", ".intercalate arguments ++ ")"

def vector2 (v : Vector2) : String :=
  call "new Vector2" [float v.x, float v.y]

def vector3 (v : Vector3) : String :=
  call "new Vector3" [float v.x, float v.y, float v.z]

def matrix (m : Matrix3x2) : String :=
  call "new Matrix3x2" ([m.m11, m.m12, m.m21, m.m22, m.m31, m.m32].map float)

def argb (channels : List String) : String :=
  call "Color.FromArgb" (channels.map ("0x" ++ ·))

def color (c : Color) : String :=
  argb [c.a.hexText, c.r.hexText, c.g.hexText, c.b.hexText]

def bool (b : Bool) : String :=
  if b then "true" else "false"

/-- A time span of ticks, each 100 ns, given by a literal or the name of a constant. -/
def timeSpan (ticks : String) : String :=
  call "TimeSpan.FromTicks" [ticks]

/-! Members of enumerations, by their names. -/

def figureLoop (name : String) : String :=
  "CanvasFigureLoop." ++ name

def combineMode (name : String) : String :=
  "CanvasGeometryCombine." ++ name

def filledRegion (name : String) : String :=
  "CanvasFilledRegionDetermination." ++ name

def ticks (milliseconds : Number) : Number :=
  (milliseconds.scale 10000).round

end SceneCompiler.CSharp
