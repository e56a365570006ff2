import SceneCompiler.Proofs.Model.Parts

/-!
# Objects with their references renamed

A renaming gives every reference of an object another one.  It keeps the kind of the object, and it
commutes with every list of references and with replacing references.
-/

namespace SceneCompiler

variable {ρ σ τ : Type} (φ : ρ → σ)

mutual
def Animator.map : Animator ρ → Animator σ
  | .plain property animation => .plain property (φ animation)
  | .controlled property animation values onProperties onController =>
    .controlled property (φ animation) values (mapAnimators onProperties)
      (mapAnimators onController)
def mapAnimators : List (Animator ρ) → List (Animator σ)
  | [] => []
  | animator :: rest => animator.map :: mapAnimators rest
end

def Base.map (base : Base ρ) : Base σ :=
  ⟨base.description, base.values, mapAnimators φ base.onProperties, mapAnimators φ base.onObject⟩

def Visual.map (v : Visual ρ) : Visual σ :=
  ⟨v.centerPoint, v.clip.map φ, v.offset, v.rotationAngleInDegrees, v.scale, v.size,
    v.children.map φ⟩

def Sprite.map (s : Sprite ρ) : Sprite σ :=
  ⟨s.fillBrush.map φ, s.geometry.map φ, s.isStrokeNonScaling, s.strokeBrush.map φ,
    s.strokeDashCap, s.strokeDashOffset, s.strokeDashArray, s.strokeEndCap, s.strokeLineJoin,
    s.strokeStartCap, s.strokeMiterLimit, s.strokeThickness⟩

def Parameters.map (p : Parameters ρ) : Parameters σ :=
  ⟨p.target, p.references.map fun r => (r.1, φ r.2)⟩

def FrameValue.map {α β : Type} (g : α → β) : FrameValue α → FrameValue β
  | .value v => .value (g v)
  | .expression text => .expression text

def KeyFrame.map {α β : Type} (g : α → β) (k : KeyFrame ρ α) : KeyFrame σ β :=
  ⟨k.progress, k.value.map g, φ k.easing⟩

def Frames.map {α β : Type} (g : α → β) (f : Frames ρ α) : Frames σ β :=
  ⟨f.duration, f.keyFrames.map (KeyFrame.map φ g)⟩

def Variant.map : Variant ρ → Variant σ
  | .containerVisual v => .containerVisual (v.map φ)
  | .shapeVisual v shapes box => .shapeVisual (v.map φ) (shapes.map φ) (box.map φ)
  | .insetClip c => .insetClip c
  | .viewBox size => .viewBox size
  | .containerShape p shapes => .containerShape p (shapes.map φ)
  | .spriteShape p s => .spriteShape p (s.map φ)
  | .ellipseGeometry t c r => .ellipseGeometry t c r
  | .rectangleGeometry t s => .rectangleGeometry t s
  | .roundedRectangleGeometry t s r => .roundedRectangleGeometry t s r
  | .pathGeometry t r => .pathGeometry t (φ r)
  | .colorBrush c => .colorBrush c
  | .linearEasing => .linearEasing
  | .cubicBezierEasing a b => .cubicBezierEasing a b
  | .stepEasing s => .stepEasing s
  | .expressionAnimation p e => .expressionAnimation (p.map φ) e
  | .colorAnimation p f => .colorAnimation (p.map φ) (f.map φ id)
  | .scalarAnimation p f => .scalarAnimation (p.map φ) (f.map φ id)
  | .vector2Animation p f => .vector2Animation (p.map φ) (f.map φ id)
  | .vector3Animation p f => .vector3Animation (p.map φ) (f.map φ id)
  | .pathAnimation p f => .pathAnimation (p.map φ) (f.map φ φ)

def CanvasGeometry.map : CanvasGeometry ρ → CanvasGeometry σ
  | .combination a b matrix mode => .combination (φ a) (φ b) matrix mode
  | .ellipse x y rx ry => .ellipse x y rx ry
  | .path region commands => .path region commands
  | .roundedRectangle x y w h rx ry => .roundedRectangle x y w h rx ry

def Object.map : Object ρ → Object σ
  | .composition base variant => .composition (base.map φ) (variant.map φ)
  | .path description r => .path description (φ r)
  | .canvas description geometry => .canvas description (geometry.map φ)

/-! ## What a renaming keeps -/

theorem mapAnimators_eq_map (as : List (Animator ρ)) :
    mapAnimators φ as = as.map (Animator.map φ) := by
  induction as with
  | nil => rfl
  | cons a as ih => simp [mapAnimators, ih]

@[simp] theorem FrameValue.map_id {α : Type} (v : FrameValue α) : v.map id = v := by
  cases v <;> rfl

@[simp] theorem Demand.ofVariant_map (v : Variant ρ) :
    Demand.ofVariant (v.map φ) = Demand.ofVariant v := by
  cases v <;> rfl

@[simp] theorem Demand.admits_map (demand : Demand) (o : Object ρ) :
    demand.admits (o.map φ) = demand.admits o := by
  cases o <;> simp [Object.map, Demand.admits]

mutual
theorem Animator.references_map (a : Animator ρ) : (a.map φ).references = a.references.map φ := by
  cases a with
  | plain property animation => simp [Animator.map, Animator.references]
  | controlled property animation values onProperties onController =>
    simp [Animator.map, Animator.references, animatorReferences_map onProperties,
      animatorReferences_map onController]
theorem animatorReferences_map (as : List (Animator ρ)) :
    animatorReferences (mapAnimators φ as) = (animatorReferences as).map φ := by
  cases as with
  | nil => simp [mapAnimators, animatorReferences]
  | cons a as =>
    simp [mapAnimators, animatorReferences, Animator.references_map a, animatorReferences_map as]
end

def renamePart (part : Demand × ρ) : Demand × σ :=
  (part.1, φ part.2)

theorem Parameters.parts_map (p : Parameters ρ) : (p.map φ).parts = p.parts.map (renamePart φ) := by
  simp [Parameters.parts, Parameters.targets, Parameters.map, renamePart]

theorem Frames.parts_map {α β : Type} (g : α → β) (f : Frames ρ α) :
    (f.map φ g).parts = f.parts.map (renamePart φ) := by
  simp [Frames.parts, Frames.easings, Frames.map, KeyFrame.map, renamePart]

theorem Frames.pathParts_map (f : Frames ρ ρ) :
    (f.map φ φ).pathParts = f.pathParts.map (renamePart φ) := by
  simp only [Frames.pathParts, Frames.map, List.flatMap_map, List.map_flatMap, KeyFrame.map]
  congr 1
  funext frame
  cases frame.value <;> rfl

theorem Object.parts_map (o : Object ρ) : (o.map φ).parts = o.parts.map (renamePart φ) := by
  cases o with
  | composition base variant =>
    cases variant <;>
      simp [Object.map, Object.parts, Variant.map, Variant.parts, Visual.map, Sprite.map,
        Parameters.parts_map, Frames.parts_map, Frames.pathParts_map, renamePart,
        Function.comp_def, Option.toList_map]
  | path description r => rfl
  | canvas description geometry => cases geometry <;> rfl

theorem Object.animators_map (o : Object ρ) : (o.map φ).animators = mapAnimators φ o.animators := by
  cases o with
  | composition base variant =>
    simp [Object.map, Object.animators, Base.animators, Base.map, mapAnimators_eq_map]
  | path description r => simp [Object.map, Object.animators, mapAnimators]
  | canvas description geometry => simp [Object.map, Object.animators, mapAnimators]

theorem Object.mentions_map (o : Object ρ) :
    (o.map φ).mentions = o.mentions.map (renamePart φ) := by
  simp [Object.mentions, Object.parts_map, Object.animators_map, animationParts,
    animatorReferences_map, renamePart]

@[simp] theorem Object.arity_map (o : Object ρ) : (o.map φ).arity = o.arity := by
  cases o with
  | composition base variant => cases variant <;> rfl
  | path description r => rfl
  | canvas description geometry => cases geometry <;> rfl

/-! ## Renaming twice -/

section Compose

variable (ψ : σ → τ)

mutual
theorem Animator.map_map (a : Animator ρ) : (a.map φ).map ψ = a.map (ψ ∘ φ) := by
  cases a with
  | plain property animation => simp [Animator.map]
  | controlled property animation values onProperties onController =>
    simp [Animator.map, mapAnimators_mapAnimators onProperties,
      mapAnimators_mapAnimators onController]
theorem mapAnimators_mapAnimators (as : List (Animator ρ)) :
    mapAnimators ψ (mapAnimators φ as) = mapAnimators (ψ ∘ φ) as := by
  cases as with
  | nil => simp [mapAnimators]
  | cons a as => simp [mapAnimators, Animator.map_map a, mapAnimators_mapAnimators as]
end

theorem Frames.map_map {α β γ : Type} (g : α → β) (h : β → γ) (f : Frames ρ α) :
    (f.map φ g).map ψ h = f.map (ψ ∘ φ) (h ∘ g) := by
  simp only [Frames.map, List.map_map, Frames.mk.injEq, true_and]
  congr 1
  funext frame
  simp only [Function.comp_apply, KeyFrame.map]
  cases frame.value <;> rfl

theorem Object.map_map (o : Object ρ) : (o.map φ).map ψ = o.map (ψ ∘ φ) := by
  cases o with
  | composition base variant =>
    simp only [Object.map, Base.map, mapAnimators_mapAnimators]
    cases variant <;>
      simp [Variant.map, Visual.map, Sprite.map, Parameters.map, Frames.map_map]
  | path description r => rfl
  | canvas description geometry => cases geometry <;> rfl

end Compose

mutual
theorem Animator.map_id (a : Animator ρ) : a.map id = a := by
  cases a with
  | plain property animation => simp [Animator.map]
  | controlled property animation values onProperties onController =>
    simp [Animator.map, mapAnimators_id onProperties, mapAnimators_id onController]
theorem mapAnimators_id (as : List (Animator ρ)) : mapAnimators id as = as := by
  cases as with
  | nil => simp [mapAnimators]
  | cons a as => simp [mapAnimators, Animator.map_id a, mapAnimators_id as]
end

theorem Frames.map_id {α : Type} (f : Frames ρ α) : f.map id id = f := by
  have hframe : KeyFrame.map (@id ρ) (@id α) = id := by
    funext frame
    simp [KeyFrame.map]
  rw [Frames.map, hframe, List.map_id]

theorem Object.map_id (o : Object ρ) : o.map id = o := by
  cases o with
  | composition base variant =>
    simp only [Object.map, Base.map, mapAnimators_id]
    cases variant <;> simp [Variant.map, Visual.map, Sprite.map, Parameters.map, Frames.map_id]
  | path description r => rfl
  | canvas description geometry => cases geometry <;> rfl

/-! ## Replacing every reference -/

section Replace

variable {φ} {g : ρ → Option σ}

theorem replaceAll_eq_some_map {α β : Type} {f : α → Option β} {h : α → β} {as : List α}
    (hall : ∀ a ∈ as, f a = some (h a)) : replaceAll f as = some (as.map h) := by
  induction as with
  | nil => rfl
  | cons a as ih =>
    have hrest := ih fun b hb => hall b (List.mem_cons_of_mem _ hb)
    simp [replaceAll, hall a List.mem_cons_self, hrest]

theorem replaceOptional_eq_some_map {a : Option ρ} (hall : ∀ r ∈ a.toList, g r = some (φ r)) :
    replaceOptional g a = some (a.map φ) := by
  cases a with
  | none => rfl
  | some r => simp [replaceOptional, hall r (by simp)]

mutual
theorem Animator.replace_eq_some_map (a : Animator ρ)
    (hall : ∀ r ∈ a.references, g r = some (φ r)) : a.replace g = some (a.map φ) := by
  cases a with
  | plain property animation =>
    simp [Animator.replace, Animator.map, hall animation (by simp [Animator.references])]
  | controlled property animation values onProperties onController =>
    simp only [Animator.references, List.mem_cons, List.mem_append] at hall
    simp [Animator.replace, Animator.map, hall animation (.inl rfl),
      replaceAnimators_eq_some_map onProperties fun r hr => hall r (.inr (.inl hr)),
      replaceAnimators_eq_some_map onController fun r hr => hall r (.inr (.inr hr))]
theorem replaceAnimators_eq_some_map (as : List (Animator ρ))
    (hall : ∀ r ∈ animatorReferences as, g r = some (φ r)) :
    replaceAnimators g as = some (mapAnimators φ as) := by
  cases as with
  | nil => simp [replaceAnimators, mapAnimators]
  | cons a as =>
    simp only [animatorReferences, List.mem_append] at hall
    simp [replaceAnimators, mapAnimators,
      Animator.replace_eq_some_map a fun r hr => hall r (.inl hr),
      replaceAnimators_eq_some_map as fun r hr => hall r (.inr hr)]
end

theorem Parameters.replace_eq_some_map {p : Parameters ρ}
    (hall : ∀ part ∈ p.parts, g part.2 = some (φ part.2)) : p.replace g = some (p.map φ) := by
  have hreferences : replaceAll (fun r => (g r.2).map fun s => (r.1, s)) p.references =
      some (p.references.map fun r => (r.1, φ r.2)) := by
    refine replaceAll_eq_some_map fun r hr => ?_
    have hpart : (.compositionObject, r.2) ∈ p.parts :=
      List.mem_map_of_mem (List.mem_map_of_mem hr)
    simp [hall _ hpart]
  simp [Parameters.replace, Parameters.map, hreferences]

theorem Frames.replace_eq_some_map {α : Type} {f : Frames ρ α}
    (hall : ∀ part ∈ f.parts, g part.2 = some (φ part.2)) :
    f.replace g some = some (f.map φ id) := by
  have hframes : replaceAll (KeyFrame.replace g some) f.keyFrames =
      some (f.keyFrames.map (KeyFrame.map φ id)) := by
    refine replaceAll_eq_some_map fun frame hframe => ?_
    have hpart : (.easing, frame.easing) ∈ f.parts :=
      List.mem_map_of_mem (List.mem_map_of_mem hframe)
    simp only [KeyFrame.replace, KeyFrame.map, hall _ hpart]
    cases frame.value <;> rfl
  simp [Frames.replace, Frames.map, hframes]

theorem Frames.replace_path_eq_some_map {f : Frames ρ ρ}
    (hall : ∀ part ∈ f.pathParts, g part.2 = some (φ part.2)) :
    f.replace g g = some (f.map φ φ) := by
  have hframes : replaceAll (KeyFrame.replace g g) f.keyFrames =
      some (f.keyFrames.map (KeyFrame.map φ φ)) := by
    refine replaceAll_eq_some_map fun frame hframe => ?_
    have hparts := fun part hpart => hall part (List.mem_flatMap.mpr ⟨frame, hframe, hpart⟩)
    simp only [KeyFrame.replace, KeyFrame.map]
    cases hvalue : frame.value with
    | value r =>
      simp only [hvalue, List.mem_cons, List.not_mem_nil, or_false, forall_eq_or_imp,
        forall_eq] at hparts
      simp [FrameValue.map, hparts.1, hparts.2]
    | expression text =>
      simp only [hvalue, List.mem_singleton, forall_eq] at hparts
      simp [FrameValue.map, hparts]
  simp [Frames.replace, Frames.map, hframes]

theorem Visual.replace_eq_some_map {v : Visual ρ} (hclip : ∀ r ∈ v.clip.toList, g r = some (φ r))
    (hchildren : ∀ r ∈ v.children, g r = some (φ r)) : v.replace g = some (v.map φ) := by
  simp [Visual.replace, Visual.map, replaceOptional_eq_some_map hclip,
    replaceAll_eq_some_map hchildren]

theorem Variant.replace_eq_some_map (v : Variant ρ)
    (hall : ∀ part ∈ v.parts, g part.2 = some (φ part.2)) : v.replace g = some (v.map φ) := by
  cases v <;>
    simp only [Variant.parts, List.mem_append, List.mem_map, or_imp, forall_and,
      forall_exists_index, and_imp, forall_apply_eq_imp_iff₂] at hall
  case containerVisual v =>
    simp [Variant.replace, Variant.map, Visual.replace_eq_some_map hall.1 hall.2]
  case shapeVisual v shapes box =>
    obtain ⟨⟨⟨hclip, hchildren⟩, hshapes⟩, hbox⟩ := hall
    simp [Variant.replace, Variant.map, Visual.replace_eq_some_map hclip hchildren,
      replaceAll_eq_some_map hshapes, replaceOptional_eq_some_map hbox]
  case containerShape p shapes =>
    simp [Variant.replace, Variant.map, replaceAll_eq_some_map hall]
  case spriteShape p s =>
    obtain ⟨⟨hfill, hgeometry⟩, hstroke⟩ := hall
    simp [Variant.replace, Variant.map, Sprite.replace, Sprite.map,
      replaceOptional_eq_some_map hfill, replaceOptional_eq_some_map hgeometry,
      replaceOptional_eq_some_map hstroke]
  case pathGeometry t r => simp [Variant.replace, Variant.map, hall _ (List.mem_singleton_self _)]
  case expressionAnimation p e =>
    simp [Variant.replace, Variant.map, Parameters.replace_eq_some_map hall]
  case pathAnimation p f =>
    simp [Variant.replace, Variant.map, Parameters.replace_eq_some_map hall.1,
      Frames.replace_path_eq_some_map hall.2]
  case colorAnimation p f | scalarAnimation p f | vector2Animation p f | vector3Animation p f =>
    simp [Variant.replace, Variant.map, Parameters.replace_eq_some_map hall.1,
      Frames.replace_eq_some_map hall.2]
  all_goals rfl

theorem Object.replace_eq_some_map (o : Object ρ)
    (hall : ∀ part ∈ o.mentions, g part.2 = some (φ part.2)) : o.replace g = some (o.map φ) := by
  have hparts := fun part hpart => hall part (List.mem_append_left _ hpart)
  cases o with
  | composition base variant =>
    have hanimators : ∀ r ∈ animatorReferences base.onProperties ++
        animatorReferences base.onObject, g r = some (φ r) := by
      intro r hr
      rw [← animatorReferences_append] at hr
      exact hall (.animation, r) (List.mem_append_right _ (List.mem_map_of_mem hr))
    simp only [List.mem_append, or_imp, forall_and] at hanimators
    simp [Object.replace, Object.map, Base.replace, Base.map,
      replaceAnimators_eq_some_map _ hanimators.1, replaceAnimators_eq_some_map _ hanimators.2,
      Variant.replace_eq_some_map variant hparts]
  | path description r =>
    simp [Object.replace, Object.map, hparts _ (List.mem_singleton_self _)]
  | canvas description geometry =>
    cases geometry with
    | combination a b matrix mode =>
      simp only [Object.parts, List.mem_cons, List.not_mem_nil, or_false, forall_eq_or_imp,
        forall_eq] at hparts
      simp [Object.replace, Object.map, CanvasGeometry.replace, CanvasGeometry.map, hparts.1,
        hparts.2]
    | _ => rfl

theorem Object.map_congr {ψ : ρ → σ} (o : Object ρ)
    (hall : ∀ part ∈ o.mentions, φ part.2 = ψ part.2) : o.map φ = o.map ψ := by
  have hφ : o.replace (some ∘ φ) = some (o.map φ) :=
    Object.replace_eq_some_map o fun _ _ => rfl
  have hψ : o.replace (some ∘ φ) = some (o.map ψ) :=
    Object.replace_eq_some_map o fun part hpart => congrArg some (hall part hpart)
  exact Option.some.inj (hφ.symm.trans hψ)

end Replace

end SceneCompiler
