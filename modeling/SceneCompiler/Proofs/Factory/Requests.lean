import SceneCompiler.Factory.Construction
import SceneCompiler.Factory.Resolution
import SceneCompiler.Proofs.Model.Parts

/-!
# What a factory asks for

A factory asks for the parts of its object, in the order of its references, and then for what the
bindings of its animators need: the animation, or the parameters of a transient one.  Creation asks
for the parts that are needed to create the object and for nothing else.
-/

namespace SceneCompiler

variable {ρ : Type}

mutual
def Animator.bindings (top : Bool) : Animator ρ → List (Bool × ρ)
  | .plain _ animation => [(top, animation)]
  | .controlled _ animation _ onProperties onController =>
    (top, animation) ::
      (animatorBindings false onProperties ++ animatorBindings false onController)
def animatorBindings (top : Bool) : List (Animator ρ) → List (Bool × ρ)
  | [] => []
  | animator :: rest => animator.bindings top ++ animatorBindings top rest
end

theorem animatorBindings_append (top : Bool) (as bs : List (Animator ρ)) :
    animatorBindings top (as ++ bs) = animatorBindings top as ++ animatorBindings top bs := by
  induction as with
  | nil => rfl
  | cons a as ih => simp [animatorBindings, ih]

mutual
theorem Animator.map_snd_bindings (top : Bool) (a : Animator ρ) :
    (a.bindings top).map Prod.snd = a.references := by
  cases a with
  | plain property animation => rfl
  | controlled property animation values onProperties onController =>
    simp only [Animator.bindings, Animator.references, List.map_cons, List.map_append,
      map_snd_animatorBindings]
theorem map_snd_animatorBindings (top : Bool) (as : List (Animator ρ)) :
    (animatorBindings top as).map Prod.snd = animatorReferences as := by
  cases as with
  | nil => rfl
  | cons a as =>
    simp only [animatorBindings, animatorReferences, List.map_append,
      a.map_snd_bindings top, map_snd_animatorBindings top as]
end

mutual
theorem Animator.not_mem_bindings_false (a : Animator ρ) (i : ρ) :
    (true, i) ∉ a.bindings false := by
  cases a with
  | plain property animation => simp [Animator.bindings]
  | controlled property animation values onProperties onController =>
    simp [Animator.bindings, not_mem_animatorBindings_false onProperties i,
      not_mem_animatorBindings_false onController i]
theorem not_mem_animatorBindings_false (as : List (Animator ρ)) (i : ρ) :
    (true, i) ∉ animatorBindings false as := by
  cases as with
  | nil => exact List.not_mem_nil
  | cons a as =>
    simp [animatorBindings, a.not_mem_bindings_false i, not_mem_animatorBindings_false as i]
end

theorem mem_animatorBindings_true {as : List (Animator ρ)} {i : ρ} :
    (true, i) ∈ animatorBindings true as ↔ i ∈ as.map Animator.animation := by
  induction as with
  | nil => simp [animatorBindings]
  | cons a as ih =>
    rw [animatorBindings, List.mem_append, ih, List.map_cons, List.mem_cons]
    cases a with
    | plain property animation => simp [Animator.bindings, Animator.animation]
    | controlled property animation values onProperties onController =>
      simp [Animator.bindings, Animator.animation, not_mem_animatorBindings_false]

theorem animation_mem_animatorReferences {i : ρ} {as : List (Animator ρ)}
    (h : i ∈ as.map Animator.animation) : i ∈ animatorReferences as := by
  rw [← map_snd_animatorBindings true]
  exact List.mem_map.mpr ⟨_, mem_animatorBindings_true.mpr h, rfl⟩

def Statement.isBinding : Statement ρ → Bool
  | .assign .reusable _ _ => true
  | .setParameter .reusable _ _ => true
  | .clearParameters => true
  | .startAnimation _ _ _ => true
  | _ => false

private theorem flatMap_nothing {α β : Type} (as : List α) :
    as.flatMap (fun _ => ([] : List β)) = [] :=
  List.flatMap_eq_nil_iff.mpr fun _ _ => rfl

namespace Construction

@[simp] theorem references_assign (property : String) (value : Operand ρ) :
    (assign property value).references = value.references := rfl

@[simp] theorem isBinding_assign (property : String) (value : Operand ρ) :
    (assign property value).isBinding = false := rfl

@[simp] theorem references_assignSome {α : Type} (property : String) (value : α → Operand ρ)
    (a : Option α) :
    (assignSome property value a).flatMap Statement.references =
      a.toList.flatMap fun a => (value a).references := by
  cases a <;> simp [assignSome]

@[simp] theorem isBinding_assignSome {α : Type} (property : String) (value : α → Operand ρ)
    (a : Option α) : (assignSome property value a).any Statement.isBinding = false := by
  cases a <;> simp [assignSome]

@[simp] theorem references_assignIf (differs : Bool) (property : String) (value : Operand ρ) :
    (assignIf differs property value).flatMap Statement.references =
      if differs then value.references else [] := by
  cases differs <;> simp [assignIf]

@[simp] theorem isBinding_assignIf (differs : Bool) (property : String) (value : Operand ρ) :
    (assignIf differs property value).any Statement.isBinding = false := by
  cases differs <;> simp [assignIf]

@[simp] theorem references_fill {α : Type} (list : ItemList) (item : α → List (Statement ρ))
    (items : List α) :
    (fill list item items).flatMap Statement.references =
      items.flatMap fun a => (item a).flatMap Statement.references := by
  cases items <;> simp [fill, Statement.references, List.flatMap_assoc]

@[simp] theorem isBinding_fill {α : Type} (list : ItemList) (item : α → List (Statement ρ))
    (items : List α) :
    (fill list item items).any Statement.isBinding =
      items.any fun a => (item a).any Statement.isBinding := by
  cases items <;> simp [fill, Statement.isBinding]

@[simp] theorem references_insertValues (values : PropertyValues) :
    (insertValues values : List (Statement ρ)).flatMap Statement.references = [] := by
  unfold insertValues
  split <;> simp [Statement.references, List.flatMap_map]

@[simp] theorem isBinding_insertValues (values : PropertyValues) :
    (insertValues values : List (Statement ρ)).any Statement.isBinding = false := by
  unfold insertValues
  split <;> simp [Statement.isBinding]

variable {n : Nat} (p : Plan n) (s : Settings) (r : Fin n)

@[simp] theorem references_setUp (base : Base (Fin n)) :
    (setUp s base).flatMap Statement.references = [] := by
  simp [setUp, Operand.references, flatMap_nothing]

@[simp] theorem isBinding_setUp (base : Base (Fin n)) :
    (setUp s base).any Statement.isBinding = false := by
  simp [setUp]

@[simp] theorem references_ask (i : Fin n) : (ask p r i).references = [p.request r i] := rfl

@[simp] theorem statements_bareOr (creation : Creation (Request n))
    (statements : List (Statement (Request n))) :
    (bareOr creation statements).statements = statements := by
  cases statements <;> rfl

@[simp] theorem creation_bareOr (creation : Creation (Request n))
    (statements : List (Statement (Request n))) :
    (bareOr creation statements).creation = creation := by
  cases statements <;> rfl

@[simp] theorem references_parameters (q : Parameters (Fin n)) :
    (parameters p r q).flatMap Statement.references = q.targets.map (p.request r) := by
  simp [parameters, ask, Statement.references, Operand.references, List.flatMap_map,
    Parameters.targets, flatMap_nothing, ← List.map_eq_flatMap, Function.comp_def]

@[simp] theorem isBinding_parameters (q : Parameters (Fin n)) :
    (parameters p r q).any Statement.isBinding = false := by
  simp [parameters, Statement.isBinding]

@[simp] theorem isBinding_keyFrame {α : Type} (value : α → Operand (Request n))
    (describe : α → List String) (k : KeyFrame (Fin n) α) :
    (keyFrame p r value describe k).any Statement.isBinding = false := by
  unfold keyFrame
  split <;> simp [Statement.isBinding]

@[simp] theorem isBinding_frames {α : Type} (q : Parameters (Fin n)) (f : Frames (Fin n) α)
    (value : α → Operand (Request n)) (describe : α → List String) :
    (frames p s r q f value describe).any Statement.isBinding = false := by
  simp [frames]

theorem references_keyFrames {α : Type} (ks : List (KeyFrame (Fin n) α))
    {value : α → Operand (Request n)} (describe : α → List String)
    (hvalue : ∀ a, (value a).references = []) :
    (ks.flatMap (keyFrame p r value describe)).flatMap Statement.references =
      (ks.map KeyFrame.easing).map (p.request r) := by
  induction ks with
  | nil => rfl
  | cons k ks ih =>
    rw [List.flatMap_cons, List.flatMap_append, ih]
    unfold keyFrame
    split <;> simp [Statement.references, hvalue, List.flatMap_map, flatMap_nothing]

theorem references_duration (milliseconds : Number) :
    (duration s milliseconds : Operand (Request n)).references = [] := by
  unfold duration
  split <;> rfl

theorem references_frames {α : Type} (q : Parameters (Fin n)) (f : Frames (Fin n) α)
    {value : α → Operand (Request n)} (describe : α → List String)
    (hvalue : ∀ a, (value a).references = []) :
    (frames p s r q f value describe).flatMap Statement.references =
      (q.parts ++ f.parts).map fun part => p.request r part.2 := by
  simp [frames, references_keyFrames p r _ describe hvalue, references_duration,
    Parameters.parts, Frames.parts, Frames.easings, Function.comp_def]

theorem references_pathFrames (q : Parameters (Fin n)) (f : Frames (Fin n) (Fin n)) :
    (frames p s r q f (ask p r) fun _ => []).flatMap Statement.references =
      (q.parts ++ f.pathParts).map fun part => p.request r part.2 := by
  have hframes : (f.keyFrames.flatMap (keyFrame p r (ask p r) fun _ => [])).flatMap
      Statement.references = f.pathParts.map fun part => p.request r part.2 := by
    unfold Frames.pathParts
    induction f.keyFrames with
    | nil => rfl
    | cons k ks ih =>
      rw [List.flatMap_cons, List.flatMap_append, ih, List.flatMap_cons, List.map_append]
      congr 1
      unfold keyFrame
      cases k.value <;> rfl
  simp [frames, hframes, references_duration, Parameters.parts, Function.comp_def]

end Construction

namespace Plan

variable {n : Nat} (p : Plan n) (s : Settings) (r : Fin n)

def starts : List (Statement (Request n)) :=
  match p.merge.object r with
  | .composition base variant =>
    if variant.startsAnimations then p.startAnimations r base else []
  | _ => []

def partRequests (parts : List (Demand × Fin n)) : List (Request n) :=
  parts.map fun part => p.request r part.2

theorem creation_references :
    (p.factory s r).creation.references =
      p.partRequests r ((p.merge.object r).parts.take (p.merge.object r).arity) := by
  unfold factory
  cases p.merge.object r with
  | composition base variant =>
    cases variant <;>
      simp [Construction.variantFactory, Construction.variantFactory.full, Construction.ask,
        Creation.references, Operand.references, partRequests, Object.arity, Variant.arity, Object.parts,
        Variant.parts]
  | path description source => rfl
  | canvas description geometry => cases geometry <;> rfl

theorem factory_statements :
    ∃ own, (p.factory s r).statements = own ++ p.starts r ∧
      own.flatMap Statement.references =
        p.partRequests r ((p.merge.object r).parts.drop (p.merge.object r).arity) ∧
      own.any Statement.isBinding = false := by
  unfold factory starts
  cases p.merge.object r with
  | composition base variant =>
    cases variant <;>
      simp only [Construction.variantFactory, Construction.variantFactory.full,
        Construction.statements_bareOr, Variant.startsAnimations, if_true, if_false,
        Bool.false_eq_true, Object.arity, Variant.arity, List.drop_zero, Object.parts]
    case linearEasing | cubicBezierEasing | stepEasing | expressionAnimation =>
      refine ⟨_, (List.append_nil _).symm, ?_, ?_⟩ <;>
        simp [partRequests, Variant.parts, Parameters.parts, Construction.stepEasing,
          Construction.assignInteger, Construction.assignFlag, Operand.references,
          Function.comp_def]
    case pathGeometry | colorBrush =>
      refine ⟨_, rfl, ?_, ?_⟩ <;>
        simp [partRequests, Variant.parts, Construction.trim, Construction.assignNumber,
          Operand.references]
    case colorAnimation | scalarAnimation | vector2Animation | vector3Animation =>
      refine ⟨_, rfl, ?_, by simp⟩
      rw [List.flatMap_append, Construction.references_setUp,
        Construction.references_frames p s r _ _ _ fun _ => rfl]
      rfl
    case pathAnimation =>
      refine ⟨_, rfl, ?_, by simp⟩
      rw [List.flatMap_append, Construction.references_setUp,
        Construction.references_pathFrames]
      rfl
    case viewBox | ellipseGeometry | rectangleGeometry | roundedRectangleGeometry =>
      refine ⟨_, rfl, ?_, ?_⟩ <;>
        simp [partRequests, Variant.parts, Construction.trim, Construction.assignNumber,
          Construction.assignVector2, Operand.references]
    all_goals
      refine ⟨_, rfl, ?_, ?_⟩ <;>
        simp [partRequests, Variant.parts, Construction.visual, Construction.describedShapes,
          Construction.insetClip, Construction.placement, Construction.sprite,
          Construction.strokeCap, Construction.assignNumber, Construction.assignVector2,
          Construction.assignFlag, Construction.ask, Statement.references, Statement.isBinding,
          Operand.references, List.flatMap_map,
          flatMap_nothing, ← List.map_eq_flatMap, Function.comp_def]
  | path description source => exact ⟨[], rfl, rfl, rfl⟩
  | canvas description geometry => cases geometry <;> exact ⟨[], rfl, rfl, rfl⟩

/-- What a binding of an animation asks for.  A transient animation asks for its parameters, except
for the object at hand. -/
def bindingRequests (binding : Bool × Fin n) : List (Request n) :=
  match p.merge.object binding.2 with
  | .composition _ (.expressionAnimation q _) =>
    if (p.site binding.2).retained then [p.request r binding.2]
    else (q.targets.filter fun k => !(binding.1 && k == r)).map
      (p.request p.merge.representative[binding.2])
  | _ => [p.request r binding.2]

def ownerOf (top : Bool) : Option (Fin n) :=
  if top then some r else none

theorem references_startTransient (top : Bool) (target : Target) (property : String)
    (animation : Fin n) (q : Parameters (Fin n)) (expression : String) :
    (p.startTransient (ownerOf r top) target property animation q expression).flatMap
        Statement.references =
      (q.targets.filter fun k => !(top && k == r)).map
        (p.request p.merge.representative[animation]) := by
  have hparameters : ∀ references : List (String × Fin n),
      (references.flatMap fun entry => Statement.references (.setParameter .reusable entry.1
        (if ownerOf r top = some entry.2 then .holder .result
          else .object (p.request p.merge.representative[animation] entry.2)))) =
      ((references.map Prod.snd).filter fun k => !(top && k == r)).map
        (p.request p.merge.representative[animation]) := by
    intro references
    induction references with
    | nil => rfl
    | cons entry references ih =>
      rw [List.flatMap_cons, ih]
      cases top with
      | false => simp [ownerOf, Statement.references, Operand.references]
      | true =>
        by_cases hentry : entry.2 = r
        · simp [ownerOf, Statement.references, Operand.references, hentry]
        · simp [ownerOf, Statement.references, Operand.references, hentry, Ne.symm hentry]
  simp only [startTransient, List.flatMap_append, List.flatMap_map, hparameters]
  simp [Statement.references, Operand.references, flatMap_nothing, Parameters.targets]

theorem references_start (top : Bool) (target : Target) (property : String) (animation : Fin n) :
    (p.start r (ownerOf r top) target property animation).flatMap Statement.references =
      p.bindingRequests r (top, animation) := by
  have htransient := p.references_startTransient r top target property animation
  simp only [start, bindingRequests]
  generalize p.merge.object animation = o
  cases o with
  | composition base variant =>
    cases variant with
    | expressionAnimation q expression =>
      dsimp only
      split
      · rfl
      · exact htransient q expression
    | _ => rfl
  | path description source => rfl
  | canvas description geometry => rfl

mutual
theorem references_bind (top : Bool) (target : Target) (depth : Nat) (a : Animator (Fin n)) :
    (p.bind r (ownerOf r top) target depth a).flatMap Statement.references =
      (a.bindings top).flatMap (p.bindingRequests r) := by
  cases a with
  | plain property animation =>
    simp [bind, Animator.bindings, references_start]
  | controlled property animation values onProperties onController =>
    have hproperties := references_bindAll false ⟨.controller depth, true⟩ (depth + 1)
      onProperties
    have hcontroller := references_bindAll false ⟨.controller depth, false⟩ (depth + 1)
      onController
    simp only [ownerOf, Bool.false_eq_true, if_false] at hproperties hcontroller
    simp [bind, Animator.bindings, references_start, hproperties, hcontroller,
      Statement.references]
theorem references_bindAll (top : Bool) (target : Target) (depth : Nat)
    (as : List (Animator (Fin n))) :
    (p.bindAll r (ownerOf r top) target depth as).flatMap Statement.references =
      (animatorBindings top as).flatMap (p.bindingRequests r) := by
  cases as with
  | nil => simp [bindAll, animatorBindings]
  | cons a as =>
    simp only [bindAll, animatorBindings, List.flatMap_append, references_bind top target depth a,
      references_bindAll top target depth as]
end

theorem references_declareControllers {σ : Type} (declared : List Nat)
    (statements : List (Statement σ)) :
    (declareControllers declared statements).flatMap Statement.references =
      statements.flatMap Statement.references := by
  fun_induction declareControllers declared statements with
  | case1 => rfl
  | case2 declared _ depth target property rest ih => simpa [Statement.references] using ih
  | case3 declared s rest _ ih => simp [ih]

theorem references_starts :
    (p.starts r).flatMap Statement.references =
      (animatorBindings true (p.merge.object r).started).flatMap (p.bindingRequests r) := by
  unfold starts
  cases p.merge.object r with
  | composition base variant =>
    simp only [Object.started]
    split
    · have hall := fun target => p.references_bindAll r true target 0
      simp only [ownerOf, if_true] at hall
      simp only [startAnimations, references_declareControllers, List.flatMap_append, hall,
        Base.animators, animatorBindings_append]
    · simp [animatorBindings]
  | path description source => rfl
  | canvas description geometry => rfl

theorem statements_references :
    (p.factory s r).statements.flatMap Statement.references =
      p.partRequests r ((p.merge.object r).parts.drop (p.merge.object r).arity) ++
        (animatorBindings true (p.merge.object r).started).flatMap (p.bindingRequests r) := by
  obtain ⟨own, hstatements, howned, _⟩ := p.factory_statements s r
  rw [hstatements, List.flatMap_append, howned, references_starts]

end Plan

end SceneCompiler
