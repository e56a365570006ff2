import SceneCompiler.Factory.Construction
import SceneCompiler.Proofs.Factory.Traversal

/-!
# Factories with their requests renamed

Renaming the requests of a factory before they are answered is answering the renamed requests.  The
statements that set an object up are renamed one by one.
-/

namespace SceneCompiler

variable {ρ σ τ : Type} (h : ρ → σ)

namespace Operand

@[simp] theorem map_number (value : Number) : map h (.number value) = .number value := rfl

@[simp] theorem map_integer (value : Number) : map h (.integer value) = .integer value := rfl

@[simp] theorem map_truth : map h .truth = .truth := rfl

@[simp] theorem map_text (value : String) : map h (.text value) = .text value := rfl

@[simp] theorem map_vector2 (value : Vector2) : map h (.vector2 value) = .vector2 value := rfl

@[simp] theorem map_vector3 (value : Vector3) : map h (.vector3 value) = .vector3 value := rfl

@[simp] theorem map_color (value : Color) : map h (.color value) = .color value := rfl

@[simp] theorem map_cap (value : StrokeCap) : map h (.cap value) = .cap value := rfl

@[simp] theorem map_join (value : LineJoin) : map h (.join value) = .join value := rfl

@[simp] theorem map_timeSpan (value : Number) : map h (.timeSpan value) = .timeSpan value := rfl

@[simp] theorem map_duration : map h .duration = .duration := rfl

@[simp] theorem map_object (reference : ρ) :
    map h (.object reference) = .object (h reference) := rfl

@[simp] theorem map_holder (holder : Holder) : map h (.holder holder) = .holder holder := rfl

end Operand

namespace Statement

@[simp] theorem map_comment (text : String) : map h (.comment text) = .comment text := rfl

@[simp] theorem map_assign (holder : Holder) (property : String) (value : Operand ρ) :
    map h (.assign holder property value) = .assign holder property (value.map h) := rfl

@[simp] theorem map_openList (list : ItemList) : map h (.openList list) = .openList list := rfl

@[simp] theorem map_add (list : ItemList) (item : Operand ρ) :
    map h (.add list item) = .add list (item.map h) := rfl

@[simp] theorem map_openProperties : map h .openProperties = .openProperties := rfl

@[simp] theorem map_insertScalar (name : String) (value : Number) :
    map h (.insertScalar name value) = .insertScalar name value := rfl

@[simp] theorem map_insertVector2 (name : String) (value : Vector2) :
    map h (.insertVector2 name value) = .insertVector2 name value := rfl

@[simp] theorem map_setParameter (holder : Holder) (name : String) (value : Operand ρ) :
    map h (.setParameter holder name value) = .setParameter holder name (value.map h) := rfl

@[simp] theorem map_insertKeyFrame (progress : Number) (value : Operand ρ) (easing : ρ) :
    map h (.insertKeyFrame progress value easing) =
      .insertKeyFrame progress (value.map h) (h easing) := rfl

@[simp] theorem map_insertExpressionKeyFrame (progress : Number) (expression : String) (easing : ρ) :
    map h (.insertExpressionKeyFrame progress expression easing) =
      .insertExpressionKeyFrame progress expression (h easing) := rfl

@[simp] theorem map_clearParameters : map h .clearParameters = .clearParameters := rfl

@[simp] theorem map_startAnimation (target : Target) (property : String) (animation : Operand ρ) :
    map h (.startAnimation target property animation) =
      .startAnimation target property (animation.map h) := rfl

@[simp] theorem map_fetchController (declares : Bool) (depth : Nat) (target : Target)
    (property : String) : map h (.fetchController declares depth target property) =
      .fetchController declares depth target property := rfl

@[simp] theorem map_pauseController (depth : Nat) :
    map h (.pauseController depth) = .pauseController depth := rfl

end Statement

theorem Creation.map_call (method : String) (arguments : List (Operand ρ)) :
    Creation.map h (.call method arguments) = .call method (arguments.map (Operand.map h)) := by
  simp only [Creation.map, Creation.traverse, bind_pure_comp, Id.run_map, List.idRun_mapM]
  rfl

variable {m : Type → Type} [Monad m] (f : σ → m τ)

theorem Operand.traverse_of_map (a : Operand ρ) :
    (a.map h).traverse f = a.traverse fun r => f (h r) := by
  cases a <;> rfl

theorem Statement.traverse_of_map (s : Statement ρ) :
    (s.map h).traverse f = s.traverse fun r => f (h r) := by
  cases s <;> simp [Statement.traverse, Operand.traverse_of_map]

variable [LawfulMonad m]

theorem Creation.traverse_of_map (c : Creation ρ) :
    (c.map h).traverse f = c.traverse fun r => f (h r) := by
  cases c with
  | call method arguments =>
    rw [Creation.map_call, Creation.traverse, Creation.traverse, List.mapM_map]
    congr 2
    funext a
    exact Operand.traverse_of_map h f a
  | _ => rfl

theorem Factory.traverse_of_map (factory : Factory ρ) :
    (factory.map h).traverse f = factory.traverse fun r => f (h r) := by
  rw [Factory.traverse, Factory.traverse, Factory.map, Creation.traverse_of_map, List.mapM_map]
  congr 3
  funext creation
  congr 2
  funext s
  exact Statement.traverse_of_map h f s

theorem declareControllers_map (declared : List Nat) (ss : List (Statement ρ)) :
    declareControllers declared (ss.map (Statement.map h)) =
      (declareControllers declared ss).map (Statement.map h) := by
  induction ss generalizing declared with
  | nil => rfl
  | cons s ss ih => cases s <;> simp [declareControllers, ih]

namespace Construction

variable {α β : Type}

@[simp] theorem assignSome_map (property : String) (value : α → Operand ρ) (a : Option α) :
    (assignSome property value a).map (Statement.map h) =
      assignSome property (fun a => (value a).map h) a := by
  cases a <;> rfl

theorem assignSome_of_map (property : String) (value : β → Operand ρ) (g : α → β) (a : Option α) :
    assignSome property value (a.map g) = assignSome property (fun a => value (g a)) a := by
  cases a <;> rfl

@[simp] theorem assignIf_map (differs : Bool) (property : String) (value : Operand ρ) :
    (assignIf differs property value).map (Statement.map h) =
      assignIf differs property (value.map h) := by
  cases differs <;> rfl

@[simp] theorem fill_map (list : ItemList) (item : α → List (Statement ρ)) (items : List α) :
    (fill list item items).map (Statement.map h) =
      fill list (fun a => (item a).map (Statement.map h)) items := by
  cases items <;> simp [fill, List.map_flatMap]

theorem fill_of_map (list : ItemList) (item : β → List (Statement ρ)) (g : α → β)
    (items : List α) : fill list item (items.map g) = fill list (fun a => item (g a)) items := by
  cases items <;> simp [fill, List.flatMap_map]

@[simp] theorem insertValues_map (values : PropertyValues) :
    (insertValues values).map (Statement.map h) = insertValues values := by
  rw [insertValues, insertValues]
  split <;> simp [Function.comp_def]

@[simp] theorem insetClip_map {n k : Nat} (h : Request n → Request k) (c : InsetClip) :
    (insetClip c).map (Statement.map h) = insetClip c := by
  simp [insetClip, assignVector2, assignNumber]

@[simp] theorem placement_map {n k : Nat} (h : Request n → Request k) (q : Placement) :
    (placement q).map (Statement.map h) = placement q := by
  simp [placement]

@[simp] theorem trim_map {n k : Nat} (h : Request n → Request k) (t : Trim) :
    (trim t).map (Statement.map h) = trim t := by
  simp [trim, assignNumber]

@[simp] theorem stepEasing_map {n k : Nat} (h : Request n → Request k) (e : StepEasing) :
    (stepEasing e).map (Statement.map h) = stepEasing e := by
  simp [stepEasing, assignInteger, assignFlag]

end Construction

end SceneCompiler
