import SceneCompiler.Model.Object

/-!
Factories: the code that builds one object, as data. The objects it asks for are values of a type
`ρ`: requests when the factory is drawn up, accesses once they are resolved.
-/

namespace SceneCompiler

inductive ItemList where
  | children | shapes | strokeDashArray
deriving DecidableEq, Repr

/--
What statements act on: the object being built, the expression animation that is reused for every
transient one, or the controller fetched at a depth of nested bindings.
-/
inductive Holder where
  | result
  | reusable
  | controller (depth : Nat)
deriving DecidableEq, Repr

structure Target where
  holder : Holder
  onProperties : Bool
deriving DecidableEq, Repr

inductive Operand (ρ : Type) where
  | number (value : Number)
  | integer (value : Number)
  | truth
  | text (value : String)
  | vector2 (value : Vector2)
  | vector3 (value : Vector3)
  | color (value : Color)
  | cap (value : StrokeCap)
  | join (value : LineJoin)
  | timeSpan (milliseconds : Number)
  | duration
  | object (reference : ρ)
  | holder (holder : Holder)
deriving DecidableEq, Repr

inductive Statement (ρ : Type) where
  | comment (text : String)
  | assign (holder : Holder) (property : String) (value : Operand ρ)
  | openList (list : ItemList)
  | add (list : ItemList) (item : Operand ρ)
  | openProperties
  | insertScalar (name : String) (value : Number)
  | insertVector2 (name : String) (value : Vector2)
  | setParameter (holder : Holder) (name : String) (value : Operand ρ)
  | insertKeyFrame (progress : Number) (value : Operand ρ) (easing : ρ)
  | insertExpressionKeyFrame (progress : Number) (expression : String) (easing : ρ)
  | clearParameters
  | startAnimation (target : Target) (property : String) (animation : Operand ρ)
  | fetchController (declares : Bool) (depth : Nat) (target : Target) (property : String)
  | pauseController (depth : Nat)
deriving DecidableEq, Repr

inductive Creation (ρ : Type) where
  | call (method : String) (arguments : List (Operand ρ))
  | path (source : ρ)
  | combination (a b : ρ) (matrix : Matrix3x2) (mode : CombineMode)
  | ellipse (x y radiusX radiusY : Number)
  | roundedRectangle (x y w h radiusX radiusY : Number)
  | outline (region : FilledRegion) (commands : List PathCommand)
deriving DecidableEq, Repr

/-- The creation of an object; a bare factory has nothing else, any other goes on to statements. -/
structure Factory (ρ : Type) where
  creation : Creation ρ
  bare : Bool := false
  statements : List (Statement ρ) := []
deriving DecidableEq, Repr

end SceneCompiler
