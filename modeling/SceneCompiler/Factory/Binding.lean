import SceneCompiler.Factory
import SceneCompiler.Plan
import SceneCompiler.Text.Blank

/-!
Starting the animations of an object. A transient expression animation is built on the reusable
one. The controller of a binding is fetched, paused, and given its own animations.
-/

namespace SceneCompiler

structure Request (n : Nat) where
  caller : Fin n
  callee : Fin n
deriving DecidableEq, Repr

namespace Plan

variable {n : Nat} (p : Plan n)

def request (caller object : Fin n) : Request n :=
  ⟨caller, p.merge.representative[object]⟩

/--
Builds a transient expression animation on the reusable one and starts it. The owner of the
binding, where it is an object, is at hand and not asked for.
-/
def startTransient (owner : Option (Fin n)) (target : Target) (property : String)
    (animation : Fin n) (parameters : Parameters (Fin n)) (expression : String) :
    List (Statement (Request n)) :=
  let caller := p.merge.representative[animation]
  [.clearParameters, .assign .reusable "Expression" (.text expression)] ++
  ((Text.present? parameters.target).toList.map fun text =>
    .assign .reusable "Target" (.text text)) ++
  (parameters.references.map fun (name, object) =>
    .setParameter .reusable name
      (if owner = some object then .holder .result else .object (p.request caller object))) ++
  [.startAnimation target property (.holder .reusable)]

def start (caller : Fin n) (owner : Option (Fin n)) (target : Target) (property : String)
    (animation : Fin n) : List (Statement (Request n)) :=
  let plain := [.startAnimation target property (.object (p.request caller animation))]
  match p.merge.object animation with
  | .composition _ (.expressionAnimation parameters expression) =>
    if (p.site animation).retained then plain
    else p.startTransient owner target property animation parameters expression
  | _ => plain

mutual
def bind (caller : Fin n) (owner : Option (Fin n)) (target : Target) (depth : Nat) :
    Animator (Fin n) → List (Statement (Request n))
  | .plain property animation => p.start caller owner target property animation
  | .controlled property animation _ onProperties onController =>
    p.start caller owner target property animation ++
    [.fetchController false depth target property, .pauseController depth] ++
    bindAll caller none ⟨.controller depth, true⟩ (depth + 1) onProperties ++
    bindAll caller none ⟨.controller depth, false⟩ (depth + 1) onController
def bindAll (caller : Fin n) (owner : Option (Fin n)) (target : Target) (depth : Nat) :
    List (Animator (Fin n)) → List (Statement (Request n))
  | [] => []
  | animator :: rest =>
    bind caller owner target depth animator ++ bindAll caller owner target depth rest
end

end Plan

/-- Lets the first fetch at each depth declare its local. `declared` holds the depths before. -/
def declareControllers {ρ : Type} : (declared : List Nat) → List (Statement ρ) → List (Statement ρ)
  | _, [] => []
  | declared, .fetchController _ depth target property :: rest =>
    .fetchController (!declared.contains depth) depth target property ::
      declareControllers (depth :: declared) rest
  | declared, s :: rest => s :: declareControllers declared rest

namespace Plan

variable {n : Nat} (p : Plan n)

def startAnimations (r : Fin n) (base : Base (Fin n)) : List (Statement (Request n)) :=
  declareControllers [] <|
    p.bindAll r (some r) ⟨.result, true⟩ 0 base.onProperties ++
    p.bindAll r (some r) ⟨.result, false⟩ 0 base.onObject

end Plan

end SceneCompiler
