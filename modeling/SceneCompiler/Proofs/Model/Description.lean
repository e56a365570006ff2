import SceneCompiler.Merge
import SceneCompiler.Naming

/-!
# Objects under other descriptions

Changing the description of an object changes neither its references, its values, nor its name.  What
tells objects apart is kept as well, unless comments count and are changed.
-/

namespace SceneCompiler

variable {ρ : Type} (f : Description → Description)

def Object.describe : Object ρ → Object ρ
  | .composition base variant =>
    .composition { base with description := f base.description } variant
  | .path description source => .path (f description) source
  | .canvas description geometry => .canvas (f description) geometry

namespace Object

variable (o : Object ρ)

@[simp] theorem description_describe : (o.describe f).description = f o.description := by
  cases o <;> rfl

@[simp] theorem references_describe : (o.describe f).references = o.references := by
  cases o with
  | composition base variant => cases variant <;> rfl
  | _ => rfl

@[simp] theorem typeName_describe : (o.describe f).typeName = o.typeName := by
  cases o <;> rfl

@[simp] theorem kind_describe : (o.describe f).kind = o.kind := by
  cases o <;> rfl

@[simp] theorem values_describe : (o.describe f).values = o.values := by
  cases o <;> rfl

@[simp] theorem animators_describe : (o.describe f).animators = o.animators := by
  cases o <;> rfl

@[simp] theorem isVisual_describe : (o.describe f).isVisual = o.isVisual := by
  cases o with
  | composition base variant => cases variant <;> rfl
  | _ => rfl

@[simp] theorem isExpressionAnimation_describe :
    (o.describe f).isExpressionAnimation = o.isExpressionAnimation := by
  cases o with
  | composition base variant => cases variant <;> rfl
  | _ => rfl

theorem atoms?_describe {keep : Bool} (hf : keep = true → ∀ d, (f d).comment = d.comment) :
    (o.describe f).atoms? keep = o.atoms? keep := by
  cases o with
  | composition base variant =>
    cases keep with
    | false => rfl
    | true =>
      simp only [describe, atoms?, hf rfl]
      rfl
  | _ => rfl

end Object

namespace Naming

@[simp] theorem colorFrames?_describe (o : Object ρ) :
    colorFrames? (o.describe f) = colorFrames? o := by
  cases o with
  | composition base variant => cases variant <;> rfl
  | _ => rfl

theorem baseName_describe {look look' : ρ → Object ρ}
    (hlook : ∀ r, look' r = (look r).describe f) (o : Object ρ) :
    baseName look' (o.describe f) = baseName look o := by
  cases o with
  | composition base variant =>
    cases variant with
    | colorBrush color =>
      have hframes : (fun a : Animator ρ => colorFrames? (look' a.animation)) =
          fun a => colorFrames? (look a.animation) := by
        funext a
        rw [hlook, colorFrames?_describe]
      exact congrArg (fun frames => if base.animators.isEmpty then "ColorBrush_" ++ color.name
        else withRange "AnimatedColorBrush" Color.name
          ((base.animators.findSome? frames).bind range?)) hframes
    | _ => rfl
  | _ => rfl

end Naming

end SceneCompiler
