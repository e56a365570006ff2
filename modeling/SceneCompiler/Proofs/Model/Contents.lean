import SceneCompiler.Proofs.Model.Renaming

/-!
# An object and its collections

An object is its shell, which has every field but the collections, with the collections added to it
one after another.  A renaming of the references may be made before or after that.  What an object
mentions is what its shell mentions, by single-valued references, and what its collections mention.
-/

namespace SceneCompiler

variable {ρ σ : Type}

/-- The single-valued references: clip, view box, brushes, geometry, path, source and operands. -/
def Object.singles : Object ρ → List ρ
  | .composition _ (.containerVisual v) => v.clip.toList
  | .composition _ (.shapeVisual v _ box) => v.clip.toList ++ box.toList
  | .composition _ (.spriteShape _ s) =>
    s.fillBrush.toList ++ s.geometry.toList ++ s.strokeBrush.toList
  | .composition _ (.pathGeometry _ r) => [r]
  | .composition _ _ => []
  | .path _ r => [r]
  | .canvas _ (.combination a b _ _) => [a, b]
  | .canvas _ _ => []

def Visual.shell (v : Visual ρ) : Visual ρ :=
  { v with children := [] }

def Variant.shell : Variant ρ → Variant ρ
  | .containerVisual v => .containerVisual v.shell
  | .shapeVisual v _ box => .shapeVisual v.shell [] box
  | .containerShape p _ => .containerShape p []
  | .expressionAnimation p e => .expressionAnimation ⟨p.target, []⟩ e
  | .colorAnimation p f => .colorAnimation ⟨p.target, []⟩ ⟨f.duration, []⟩
  | .scalarAnimation p f => .scalarAnimation ⟨p.target, []⟩ ⟨f.duration, []⟩
  | .vector2Animation p f => .vector2Animation ⟨p.target, []⟩ ⟨f.duration, []⟩
  | .vector3Animation p f => .vector3Animation ⟨p.target, []⟩ ⟨f.duration, []⟩
  | .pathAnimation p f => .pathAnimation ⟨p.target, []⟩ ⟨f.duration, []⟩
  | v => v

def Object.shell : Object ρ → Object ρ
  | .composition base variant => .composition { description := base.description } variant.shell
  | o => o

def frameParts {α : Type} (frames : List (KeyFrame ρ α)) : List (Demand × ρ) :=
  frames.map fun frame => (.easing, frame.easing)

def pathPart : FrameValue ρ → List (Demand × ρ)
  | .value r => [(.compositionPath, r)]
  | .expression _ => []

def pathFrameParts (frames : List (KeyFrame ρ ρ)) : List (Demand × ρ) :=
  frames.flatMap fun frame => pathPart frame.value ++ [(.easing, frame.easing)]

theorem Frames.pathParts_eq (f : Frames ρ ρ) : f.pathParts = pathFrameParts f.keyFrames := by
  simp only [Frames.pathParts, pathFrameParts]
  congr 1
  funext frame
  cases frame.value <;> rfl

namespace Content

def mentions : Content ρ → List (Demand × ρ)
  | .owned _ onProperties onObject => animationParts onProperties ++ animationParts onObject
  | .children items => items.map fun r => (.visual, r)
  | .shapes items => items.map fun r => (.shape, r)
  | .parameters entries => entries.map fun r => (.compositionObject, r.2)
  | .colorFrames frames => frameParts frames
  | .scalarFrames frames => frameParts frames
  | .vector2Frames frames => frameParts frames
  | .vector3Frames frames => frameParts frames
  | .pathFrames frames => pathFrameParts frames

def map (φ : ρ → σ) : Content ρ → Content σ
  | .owned values onProperties onObject =>
    .owned values (mapAnimators φ onProperties) (mapAnimators φ onObject)
  | .children items => .children (items.map φ)
  | .shapes items => .shapes (items.map φ)
  | .parameters entries => .parameters (entries.map fun r => (r.1, φ r.2))
  | .colorFrames frames => .colorFrames (frames.map (KeyFrame.map φ id))
  | .scalarFrames frames => .scalarFrames (frames.map (KeyFrame.map φ id))
  | .vector2Frames frames => .vector2Frames (frames.map (KeyFrame.map φ id))
  | .vector3Frames frames => .vector3Frames (frames.map (KeyFrame.map φ id))
  | .pathFrames frames => .pathFrames (frames.map (KeyFrame.map φ φ))

end Content

theorem Object.foldl_add_shell (o : Object ρ) : o.contents.foldl Object.add o.shell = o := by
  cases o with
  | composition base variant => cases variant <;> rfl
  | path description source => rfl
  | canvas description geometry => rfl

theorem Base.map_add (φ : ρ → σ) (b : Base ρ) (values : PropertyValues)
    (onProperties onObject : List (Animator ρ)) :
    (b.add values onProperties onObject).map φ =
      (b.map φ).add values (mapAnimators φ onProperties) (mapAnimators φ onObject) := by
  simp [Base.map, Base.add, mapAnimators_eq_map]

theorem Variant.map_add (φ : ρ → σ) (v : Variant ρ) (c : Content ρ) :
    (v.add c).map φ = (v.map φ).add (c.map φ) := by
  cases v <;> cases c <;>
    simp [Variant.add, Variant.addParameters, Variant.map, Content.map, Visual.map, Visual.add,
      Parameters.map, Parameters.add, Frames.map, Frames.add]

theorem Object.map_add (φ : ρ → σ) (o : Object ρ) (c : Content ρ) :
    (o.add c).map φ = (o.map φ).add (c.map φ) := by
  cases o with
  | composition base variant =>
    cases c <;> simp [Object.add, Object.map, Content.map, Base.map_add, Variant.map_add]
  | path description r => rfl
  | canvas description geometry => rfl

@[simp] theorem Demand.admits_add (demand : Demand) (o : Object ρ) (c : Content ρ) :
    demand.admits (o.add c) = demand.admits o := by
  cases o with
  | composition base variant => cases variant <;> cases c <;> rfl
  | path description r => rfl
  | canvas description geometry => rfl

@[simp] theorem Demand.admits_shell (demand : Demand) (o : Object ρ) :
    demand.admits o.shell = demand.admits o := by
  cases o with
  | composition base variant => cases variant <;> rfl
  | path description r => rfl
  | canvas description geometry => rfl

theorem Object.map_snd_mentions_shell (o : Object ρ) :
    o.shell.mentions.map Prod.snd = o.singles := by
  cases o with
  | composition base variant =>
    cases variant <;>
      simp [mentions, parts, Variant.parts, shell, Variant.shell, Visual.shell, animationParts,
        animators, Base.animators, animatorReferences, Parameters.parts, Parameters.targets,
        Frames.parts, Frames.easings, Frames.pathParts, singles, Function.comp_def]
  | path description r => rfl
  | canvas description geometry => cases geometry <;> rfl

theorem Object.mem_singles_of_mem_take {o : Object ρ} {part : Demand × ρ}
    (h : part ∈ o.parts.take o.arity) : part.2 ∈ o.singles := by
  cases o with
  | composition base variant =>
    cases variant <;> simp_all [parts, Variant.parts, arity, Variant.arity, singles]
  | path description r => simp_all [parts, arity, singles]
  | canvas description geometry =>
    cases geometry with
    | combination a b matrix mode =>
      rcases List.mem_pair.mp h with rfl | rfl <;> simp [singles]
    | _ => cases h

theorem Object.mem_mentions_iff {o : Object ρ} {part : Demand × ρ} :
    part ∈ o.mentions ↔ part ∈ o.shell.mentions ∨ ∃ c ∈ o.contents, part ∈ c.mentions := by
  cases o with
  | composition base variant =>
    cases variant <;>
      simp only [mentions, parts, Variant.parts, shell, Variant.shell, Visual.shell, contents,
        Variant.contents, animationParts, animators, Base.animators, animatorReferences_append,
        animatorReferences, Content.mentions, frameParts, Parameters.parts, Parameters.targets,
        Frames.parts, Frames.easings, Frames.pathParts_eq, pathFrameParts,
        List.map_append, List.mem_append, List.mem_cons, List.not_mem_nil, List.map_nil,
        List.append_nil, List.map_map, exists_eq_or_imp, exists_eq_left, or_false, false_or,
        Function.comp_def, List.flatMap_nil] <;>
      tauto
  | path description source => simp [mentions, parts, shell, contents, animators]
  | canvas description geometry => simp [mentions, parts, shell, contents, animators]

end SceneCompiler
