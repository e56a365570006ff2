import SceneCompiler.Merge
import SceneCompiler.Naming
import SceneCompiler.Proofs.Model.Renaming

/-!
# What does not depend on references

Renaming the references of an object changes neither its kind, its texts and values, what tells it
apart, nor its name.  The references themselves are renamed in place.
-/

namespace SceneCompiler

variable {ρ σ : Type} (φ : ρ → σ)

@[simp] theorem Variant.typeName_map (v : Variant ρ) : (v.map φ).typeName = v.typeName := by
  cases v <;> rfl

namespace Object

variable (o : Object ρ)

@[simp] theorem typeName_map : (o.map φ).typeName = o.typeName := by
  cases o <;> simp [Object.map, typeName]

@[simp] theorem kind_map : (o.map φ).kind = o.kind := by
  cases o <;> rfl

@[simp] theorem description_map : (o.map φ).description = o.description := by
  cases o <;> rfl

@[simp] theorem values_map : (o.map φ).values = o.values := by
  cases o <;> rfl

@[simp] theorem isVisual_map : (o.map φ).isVisual = o.isVisual := by
  cases o with
  | composition base variant => cases variant <;> rfl
  | _ => rfl

@[simp] theorem isExpressionAnimation_map :
    (o.map φ).isExpressionAnimation = o.isExpressionAnimation := by
  cases o with
  | composition base variant => cases variant <;> rfl
  | _ => rfl

end Object

@[simp] theorem Base.animators_map (base : Base ρ) :
    (base.map φ).animators = mapAnimators φ base.animators := by
  simp [Base.animators, Base.map, mapAnimators_eq_map]

/-! ## References -/

theorem Parameters.targets_map (p : Parameters ρ) : (p.map φ).targets = p.targets.map φ := by
  simp [Parameters.targets, Parameters.map]

theorem Frames.easings_map {α β : Type} (g : α → β) (f : Frames ρ α) :
    (f.map φ g).easings = f.easings.map φ := by
  simp [Frames.easings, Frames.map, KeyFrame.map]

theorem Frames.pathsAndEasings_map (f : Frames ρ ρ) :
    (f.map φ φ).pathsAndEasings = f.pathsAndEasings.map φ := by
  simp only [Frames.pathsAndEasings, Frames.map, List.flatMap_map, List.map_flatMap, KeyFrame.map]
  congr 1
  funext frame
  cases frame.value <;> rfl

theorem Object.references_map (o : Object ρ) : (o.map φ).references = o.references.map φ := by
  cases o with
  | composition base variant =>
    cases variant <;>
      simp [Object.map, Object.references, Variant.map, Variant.references, Visual.map,
        Sprite.map, Parameters.targets_map, Frames.easings_map, Frames.pathsAndEasings_map,
        animatorReferences_map, Option.toList_map]
  | path description r => rfl
  | canvas description geometry => cases geometry <;> rfl

/-! ## What tells objects apart -/

theorem Atom.ofParameters_map (p : Parameters ρ) : ofParameters (p.map φ) = ofParameters p := by
  simp [ofParameters, Parameters.map]

theorem Atom.ofFrames_map {α β : Type} (g : α → β) (value : α → List Atom) (value' : β → List Atom)
    (hvalue : ∀ a, value' (g a) = value a) (f : Frames ρ α) :
    ofFrames value' (f.map φ g) = ofFrames value f := by
  simp only [ofFrames, Frames.map, List.length_map, List.flatMap_map]
  congr 3
  funext frame
  cases hframe : frame.value <;> simp [KeyFrame.map, FrameValue.map, hframe, hvalue]

@[simp] theorem Variant.atoms?_map (v : Variant ρ) : (v.map φ).atoms? = v.atoms? := by
  cases v <;> simp [Variant.map, Variant.atoms?, Atom.ofParameters_map, Atom.ofFrames_map]

@[simp] theorem mapAnimators_isEmpty (as : List (Animator ρ)) :
    (mapAnimators φ as).isEmpty = as.isEmpty := by
  rw [mapAnimators_eq_map, List.isEmpty_map]

@[simp] theorem Object.atoms?_map (keep : Bool) (o : Object ρ) :
    (o.map φ).atoms? keep = o.atoms? keep := by
  cases o with
  | composition base variant =>
    simp [Object.map, Object.atoms?]
    rfl
  | path description r => rfl
  | canvas description geometry => cases geometry <;> rfl

/-! ## Names -/

namespace Naming

theorem range?_map {α : Type} (frames : List (KeyFrame ρ α)) :
    range? (frames.map (KeyFrame.map φ id)) = range? frames := by
  simp only [range?, List.head?_map, List.getLast?_map]
  cases frames.head? with
  | none => rfl
  | some first =>
    cases frames.getLast? with
    | none => rfl
    | some last => simp [KeyFrame.map]

theorem colorFrames?_map (o : Object ρ) :
    colorFrames? (o.map φ) = (colorFrames? o).map (List.map (KeyFrame.map φ id)) := by
  cases o with
  | composition base variant => cases variant <;> rfl
  | _ => rfl

@[simp] theorem animation_map (a : Animator ρ) : (a.map φ).animation = φ a.animation := by
  cases a <;> simp [Animator.map, Animator.animation]

theorem findSome?_colorFrames_map {look : ρ → Object ρ} {look' : σ → Object σ}
    (hlook : ∀ r, look' (φ r) = (look r).map φ) (as : List (Animator ρ)) :
    (mapAnimators φ as).findSome? (fun a => colorFrames? (look' a.animation)) =
      (as.findSome? fun a => colorFrames? (look a.animation)).map
        (List.map (KeyFrame.map φ id)) := by
  induction as with
  | nil => simp [mapAnimators]
  | cons a as ih =>
    rw [mapAnimators, List.findSome?_cons, List.findSome?_cons, animation_map, hlook,
      colorFrames?_map, ih]
    cases colorFrames? (look a.animation) <;> rfl

theorem baseName_map {look : ρ → Object ρ} {look' : σ → Object σ}
    (hlook : ∀ r, look' (φ r) = (look r).map φ) (o : Object ρ) :
    baseName look' (o.map φ) = baseName look o := by
  cases o with
  | composition base variant =>
    cases variant with
    | colorBrush color =>
      unfold baseName variantName
      dsimp only [Object.map, Variant.map]
      rw [Base.animators_map, mapAnimators_isEmpty, findSome?_colorFrames_map φ hlook]
      cases base.animators.findSome? fun a => colorFrames? (look a.animation) with
      | none => rfl
      | some frames => simp [range?_map]
    | colorAnimation parameters frames =>
      exact congrArg (withRange "ColorAnimation" Color.name) (range?_map φ frames.keyFrames)
    | scalarAnimation parameters frames =>
      exact congrArg (withRange "ScalarAnimation" Number.idText) (range?_map φ frames.keyFrames)
    | _ => rfl
  | path description r => rfl
  | canvas description geometry => rfl

end Naming

end SceneCompiler
