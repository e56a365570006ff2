import SceneCompiler.Factory

/-!
The objects that a factory asks for, in the order in which it asks, and factories with the answers
in their place.
-/

namespace SceneCompiler

variable {ρ σ : Type}

def Operand.references : Operand ρ → List ρ
  | .object r => [r]
  | _ => []

def Statement.references : Statement ρ → List ρ
  | .assign _ _ value => value.references
  | .add _ item => item.references
  | .setParameter _ _ value => value.references
  | .insertKeyFrame _ value easing => value.references ++ [easing]
  | .insertExpressionKeyFrame _ _ easing => [easing]
  | .startAnimation _ _ animation => animation.references
  | _ => []

def Creation.references : Creation ρ → List ρ
  | .call _ arguments => arguments.flatMap Operand.references
  | .path source => [source]
  | .combination a b _ _ => [a, b]
  | _ => []

def Factory.references (f : Factory ρ) : List ρ :=
  f.creation.references ++ f.statements.flatMap Statement.references

variable {m : Type → Type} [Monad m]

def Operand.traverse (f : ρ → m σ) : Operand ρ → m (Operand σ)
  | .object r => return .object (← f r)
  | .number value => return .number value
  | .integer value => return .integer value
  | .truth => return .truth
  | .text value => return .text value
  | .vector2 value => return .vector2 value
  | .vector3 value => return .vector3 value
  | .color value => return .color value
  | .cap value => return .cap value
  | .join value => return .join value
  | .timeSpan milliseconds => return .timeSpan milliseconds
  | .duration => return .duration
  | .holder h => return .holder h

def Statement.traverse (f : ρ → m σ) : Statement ρ → m (Statement σ)
  | .comment text => return .comment text
  | .assign holder property value => return .assign holder property (← value.traverse f)
  | .openList list => return .openList list
  | .add list item => return .add list (← item.traverse f)
  | .openProperties => return .openProperties
  | .insertScalar name value => return .insertScalar name value
  | .insertVector2 name value => return .insertVector2 name value
  | .setParameter holder name value => return .setParameter holder name (← value.traverse f)
  | .insertKeyFrame progress value easing => do
    let value ← value.traverse f
    return .insertKeyFrame progress value (← f easing)
  | .insertExpressionKeyFrame progress expression easing =>
    return .insertExpressionKeyFrame progress expression (← f easing)
  | .clearParameters => return .clearParameters
  | .startAnimation target property animation =>
    return .startAnimation target property (← animation.traverse f)
  | .fetchController declares depth target property =>
    return .fetchController declares depth target property
  | .pauseController depth => return .pauseController depth

def Creation.traverse (f : ρ → m σ) : Creation ρ → m (Creation σ)
  | .call method arguments => return .call method (← arguments.mapM (Operand.traverse f))
  | .path source => return .path (← f source)
  | .combination a b matrix mode => do
    let a ← f a
    return .combination a (← f b) matrix mode
  | .ellipse x y rx ry => return .ellipse x y rx ry
  | .roundedRectangle x y w h rx ry => return .roundedRectangle x y w h rx ry
  | .outline region commands => return .outline region commands

def Factory.traverse (f : ρ → m σ) (factory : Factory ρ) : m (Factory σ) := do
  let creation ← factory.creation.traverse f
  let statements ← factory.statements.mapM (Statement.traverse f)
  return ⟨creation, factory.bare, statements⟩

end SceneCompiler
