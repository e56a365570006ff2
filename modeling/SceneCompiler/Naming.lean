import SceneCompiler.Model.Object
import SceneCompiler.Number.Scientific

/-!
Names of factories, made from what an object is. Objects with the same name are told apart by
ordinals.
-/

namespace SceneCompiler

def replaceFirst (old new : Char) : List Char → List Char
  | [] => []
  | c :: rest => if c = old then new :: rest else c :: replaceFirst old new rest

def Number.toThousandths : Number → Number
  | .finite negative units h =>
    if units < Nat.pow 10 21 * Number.one then (Decimal.fixed units 3).toNumber negative
    else .finite negative units h
  | n => n

/-- A number inside an identifier: at most three decimals, `p` for the point and `m` for a minus
sign. -/
def Number.idText (n : Number) : String :=
  let chars := expandExponent (n.toThousandths.chars false)
  String.ofList (replaceFirst '-' 'm' (replaceFirst '.' 'p' chars))

def Vector2.idText (v : Vector2) : String :=
  if v.x.equals v.y then v.x.idText else v.x.idText ++ "x" ++ v.y.idText

namespace Naming

variable {ρ : Type}

def range? {α : Type} (frames : List (KeyFrame ρ α)) : Option (α × α) :=
  match frames.head?, frames.getLast? with
  | some first, some last =>
    match first.value, last.value with
    | .value a, .value b => some (a, b)
    | _, _ => none
  | _, _ => none

def withRange {α : Type} (base : String) (describe : α → String) : Option (α × α) → String
  | some (a, b) => base ++ "_" ++ describe a ++ "_to_" ++ describe b
  | none => base

def colorFrames? : Object ρ → Option (List (KeyFrame ρ Color))
  | .composition _ (.colorAnimation _ frames) => some frames.keyFrames
  | _ => none

def shortType (typeName : String) : String :=
  let family := "Composition".toList
  if family.isPrefixOf typeName.toList then String.ofList (typeName.toList.drop family.length)
  else typeName

def variantName (look : ρ → Object ρ) (base : Base ρ) : Variant ρ → String
  | .colorAnimation _ f => withRange "ColorAnimation" Color.name (range? f.keyFrames)
  | .scalarAnimation _ f => withRange "ScalarAnimation" Number.idText (range? f.keyFrames)
  | .vector2Animation _ _ => "Vector2Animation"
  | .colorBrush c =>
    if base.animators.isEmpty then "ColorBrush_" ++ c.name
    else
      let frames := base.animators.findSome? fun a => colorFrames? (look a.animation)
      withRange "AnimatedColorBrush" Color.name (frames.bind range?)
  | .rectangleGeometry _ size => "Rectangle_" ++ size.idText
  | .roundedRectangleGeometry _ size _ => "RoundedRectangle_" ++ size.idText
  | .ellipseGeometry _ _ radius => "Ellipse_" ++ radius.idText
  | v => shortType v.typeName

def baseName (look : ρ → Object ρ) : Object ρ → String
  | .composition base variant => variantName look base variant
  | .path _ _ => "CompositionPath"
  | .canvas _ _ => "Geometry"

def ordinal (k : Nat) : String :=
  let digits := Nat.toDigits 10 k
  String.ofList (zeros (3 - digits.length) ++ digits)

/-- Adds ordinals to the names that occur more than once. `before` holds the names already seen. -/
def addOrdinals (all : List String) : (before rest : List String) → List String
  | _, [] => []
  | before, name :: rest =>
    (if all.count name = 1 then name else name ++ "_" ++ ordinal (before.count name)) ::
      addOrdinals all (name :: before) rest

def distinguish (names : List String) : List String :=
  addOrdinals names [] names

end Naming

end SceneCompiler
