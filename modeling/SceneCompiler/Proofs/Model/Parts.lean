import Mathlib.Data.List.Forall2
import SceneCompiler.Document.Link
import SceneCompiler.Model.Reference

/-!
# The parts of an object

The references of an object are its parts, each with what is asked of it, and then the animations it
starts.  The parts that are needed to create the object come first.
-/

namespace SceneCompiler

variable {ρ σ : Type}

theorem animatorReferences_append (as bs : List (Animator ρ)) :
    animatorReferences (as ++ bs) = animatorReferences as ++ animatorReferences bs := by
  induction as with
  | nil => rfl
  | cons a as ih => simp [animatorReferences, ih]

def Parameters.parts (p : Parameters ρ) : List (Demand × ρ) :=
  p.targets.map fun r => (.compositionObject, r)

def Frames.parts {α : Type} (f : Frames ρ α) : List (Demand × ρ) :=
  f.easings.map fun r => (.easing, r)

def Frames.pathParts (f : Frames ρ ρ) : List (Demand × ρ) :=
  f.keyFrames.flatMap fun frame =>
    match frame.value with
    | .value path => [(.compositionPath, path), (.easing, frame.easing)]
    | .expression _ => [(.easing, frame.easing)]

def Variant.parts : Variant ρ → List (Demand × ρ)
  | .containerVisual v =>
    (v.clip.toList.map fun r => (.insetClip, r)) ++ v.children.map fun r => (.visual, r)
  | .shapeVisual v shapes box =>
    (v.clip.toList.map fun r => (.insetClip, r)) ++ (v.children.map fun r => (.visual, r)) ++
      (shapes.map fun r => (.shape, r)) ++ box.toList.map fun r => (.viewBox, r)
  | .containerShape _ shapes => shapes.map fun r => (.shape, r)
  | .spriteShape _ s =>
    (s.fillBrush.toList.map fun r => (.brush, r)) ++ (s.geometry.toList.map fun r => (.geometry, r)) ++
      s.strokeBrush.toList.map fun r => (.brush, r)
  | .pathGeometry _ path => [(.compositionPath, path)]
  | .insetClip _ | .viewBox _ | .colorBrush _ => []
  | .ellipseGeometry _ _ _ | .rectangleGeometry _ _ | .roundedRectangleGeometry _ _ _ => []
  | .linearEasing | .cubicBezierEasing _ _ | .stepEasing _ => []
  | .expressionAnimation p _ => p.parts
  | .colorAnimation p f => p.parts ++ f.parts
  | .scalarAnimation p f => p.parts ++ f.parts
  | .vector2Animation p f => p.parts ++ f.parts
  | .vector3Animation p f => p.parts ++ f.parts
  | .pathAnimation p f => p.parts ++ f.pathParts

def Variant.arity : Variant ρ → Nat
  | .pathGeometry _ _ => 1
  | _ => 0

namespace Object

/-- What an object refers to apart from animations, and what is asked of each. -/
def parts : Object ρ → List (Demand × ρ)
  | .composition _ variant => variant.parts
  | .path _ source => [(.canvasGeometry, source)]
  | .canvas _ (.combination a b _ _) => [(.canvasGeometry, a), (.canvasGeometry, b)]
  | .canvas _ _ => []

def started : Object ρ → List (Animator ρ)
  | .composition base variant => if variant.startsAnimations then base.animators else []
  | _ => []

def arity : Object ρ → Nat
  | .composition _ variant => variant.arity
  | .path _ _ => 1
  | .canvas _ (.combination _ _ _ _) => 2
  | _ => 0

def parameterTargets : Object ρ → List ρ
  | .composition _ (.expressionAnimation p _) => p.targets
  | .composition _ (.colorAnimation p _) => p.targets
  | .composition _ (.scalarAnimation p _) => p.targets
  | .composition _ (.vector2Animation p _) => p.targets
  | .composition _ (.vector3Animation p _) => p.targets
  | .composition _ (.pathAnimation p _) => p.targets
  | _ => []

def isEasing : Object ρ → Bool
  | .composition _ .linearEasing => true
  | .composition _ (.cubicBezierEasing _ _) => true
  | .composition _ (.stepEasing _) => true
  | _ => false

def isOutline : Object ρ → Bool
  | .composition _ _ => false
  | _ => true

private theorem map_snd_pathParts (f : Frames ρ ρ) :
    f.pathParts.map Prod.snd = f.pathsAndEasings := by
  simp only [Frames.pathParts, Frames.pathsAndEasings, List.map_flatMap]
  congr 1
  funext frame
  cases frame.value <;> rfl

/-- The references of an object are its parts and the animations it starts. -/
theorem references_eq (o : Object ρ) :
    o.references = o.parts.map Prod.snd ++ animatorReferences o.started := by
  cases o with
  | composition base variant =>
    cases variant <;>
      simp [references, Variant.references, parts, Variant.parts, started,
        Variant.startsAnimations, Parameters.parts, Frames.parts, map_snd_pathParts,
        animatorReferences, Function.comp_def]
  | path description source => rfl
  | canvas description geometry => cases geometry <;> rfl

private theorem mem_pathParts {part : Demand × ρ} {f : Frames ρ ρ} (h : part ∈ f.pathParts) :
    part.1 = .compositionPath ∨ part.1 = .easing := by
  obtain ⟨frame, _, hpart⟩ := List.mem_flatMap.mp h
  cases hvalue : frame.value with
  | value path =>
    simp only [hvalue, List.mem_cons, List.not_mem_nil, or_false] at hpart
    rcases hpart with rfl | rfl
    · exact .inl rfl
    · exact .inr rfl
  | expression text =>
    simp only [hvalue, List.mem_singleton] at hpart
    exact .inr (hpart ▸ rfl)

theorem mem_parameterTargets {o : Object ρ} {r : ρ} :
    r ∈ o.parameterTargets ↔ (.compositionObject, r) ∈ o.parts := by
  cases o with
  | composition base variant =>
    cases variant with
    | pathAnimation p f =>
      have hframes : (.compositionObject, r) ∉ f.pathParts := fun h => by
        rcases mem_pathParts h with h | h <;> cases h
      simp [parameterTargets, parts, Variant.parts, Parameters.parts, hframes]
    | _ =>
      simp [parameterTargets, parts, Variant.parts, Parameters.parts, Frames.parts]
  | path description source => simp [parameterTargets, parts]
  | canvas description geometry => cases geometry <;> simp [parameterTargets, parts]

theorem parameterTargets_subset (o : Object ρ) : o.parameterTargets ⊆ o.references := by
  intro r hr
  rw [references_eq, List.mem_append]
  exact .inl (List.mem_map.mpr ⟨_, mem_parameterTargets.mp hr, rfl⟩)

theorem references_of_isExpressionAnimation {o : Object ρ} (h : o.isExpressionAnimation = true) :
    o.references = o.parameterTargets := by
  cases o with
  | composition base variant =>
    cases variant with
    | expressionAnimation p expression => rfl
    | _ => cases h
  | path description source => cases h
  | canvas description geometry => cases h

theorem arity_of_isExpressionAnimation {o : Object ρ} (h : o.isExpressionAnimation = true) :
    o.arity = 0 := by
  cases o with
  | composition base variant =>
    cases variant with
    | expressionAnimation p expression => rfl
    | _ => cases h
  | path description source => cases h
  | canvas description geometry => cases h

theorem arity_le (o : Object ρ) : o.arity ≤ o.parts.length := by
  cases o with
  | composition base variant => cases variant <;> simp [arity, Variant.arity, parts, Variant.parts]
  | path description source => simp [arity, parts]
  | canvas description geometry => cases geometry <;> simp [arity, parts]

theorem animation_not_mem_parts (o : Object ρ) (r : ρ) : (.animation, r) ∉ o.parts := by
  cases o with
  | composition base variant =>
    cases variant with
    | pathAnimation p f =>
      have hframes : (.animation, r) ∉ f.pathParts := fun h => by
        rcases mem_pathParts h with h | h <;> cases h
      simp [parts, Variant.parts, Parameters.parts, hframes]
    | _ => simp [parts, Variant.parts, Parameters.parts, Frames.parts]
  | path description source => simp [parts]
  | canvas description geometry => cases geometry <;> simp [parts]

theorem outline_demand_of_mem_take {o : Object ρ} {part : Demand × ρ}
    (h : part ∈ o.parts.take o.arity) :
    part.1 = .canvasGeometry ∨ part.1 = .compositionPath ∧ o.isOutline = false := by
  cases o with
  | composition base variant =>
    cases variant with
    | pathGeometry trim path =>
      rw [List.mem_singleton.mp h]
      exact .inr ⟨rfl, rfl⟩
    | _ => simp [arity, Variant.arity] at h
  | path description source =>
    rw [List.mem_singleton.mp h]
    exact .inl rfl
  | canvas description geometry =>
    cases geometry with
    | combination a b matrix mode =>
      rcases List.mem_pair.mp h with rfl | rfl <;> exact .inl rfl
    | _ => cases h

theorem exists_expression {o : Object ρ} (h : o.isExpressionAnimation = true) :
    ∃ base parameters expression,
      o = .composition base (.expressionAnimation parameters expression) := by
  cases o with
  | composition base variant =>
    cases variant with
    | expressionAnimation parameters expression => exact ⟨base, parameters, expression, rfl⟩
    | _ => cases h
  | path description source => cases h
  | canvas description geometry => cases h

theorem started_eq (o : Object ρ) :
    o.started = if o.isEasing || o.isExpressionAnimation then [] else o.animators := by
  cases o with
  | composition base variant =>
    cases variant <;>
      simp [started, Variant.startsAnimations, isEasing, isExpressionAnimation, animators]
  | path description source => rfl
  | canvas description geometry => rfl

theorem animators_of_started {o : Object ρ} (h : o.started ≠ []) :
    o.started = o.animators ∧ o.isEasing = false ∧ o.isExpressionAnimation = false := by
  rw [started_eq] at h ⊢
  cases heasing : o.isEasing <;> cases hexpression : o.isExpressionAnimation <;>
    simp_all

theorem references_of_isOutline {o : Object ρ} (h : o.isOutline = true) :
    o.references = (o.parts.take o.arity).map Prod.snd := by
  cases o with
  | composition base variant => cases h
  | path description source => rfl
  | canvas description geometry => cases geometry <;> rfl

end Object

def animationParts (as : List (Animator ρ)) : List (Demand × ρ) :=
  (animatorReferences as).map fun r => (.animation, r)

/-- Every reference of an object with what is asked of it: the parts, and the animations of all its
animators, started or not. -/
def Object.mentions (o : Object ρ) : List (Demand × ρ) :=
  o.parts ++ animationParts o.animators

end SceneCompiler
