import SceneCompiler.Naming
import SceneCompiler.Sketch.Draft

/-!
The names of the objects of a sketch, before ordinals. Colors are named by the texts of their
channels, whatever these hold, and all else as in the object that is read.
-/

namespace SceneCompiler.Sketch

variable (s : Sketch)

def frameRange? (f : Slots) : Option (Slot × Slot) :=
  let frames := s.items (f.get "keyFrames")
  match frames.head?, frames.getLast? with
  | some first, some last =>
    let first := s.fields first
    let last := s.fields last
    if hasValue first && hasValue last then some (first.get "value", last.get "value") else none
  | _, _ => none

def withColors (base : String) (f : Slots) : String :=
  Naming.withRange base s.colorName (s.frameRange? f)

def colorAnimation? (slot : Slot) : Option Slots :=
  let f := s.fields slot
  if f.get "type" == .text "ColorKeyFrameAnimation" then some f else none

def baseName (slot : Slot) : String :=
  let f := s.fields slot
  match s.draft slot with
  | .known (.composition _ (.colorAnimation _ _)) => s.withColors "ColorAnimation" f
  | .known (.composition base (.colorBrush _)) =>
    if base.animators.isEmpty then "ColorBrush_" ++ s.colorName (f.get "color")
    else
      match base.animators.findSome? fun a => s.colorAnimation? a.animation with
      | some animation => s.withColors "AnimatedColorBrush" animation
      | none => "AnimatedColorBrush"
  | .known o => Naming.baseName (fun _ => o) o
  | .unknown _ _ type => Naming.shortType type

end SceneCompiler.Sketch
