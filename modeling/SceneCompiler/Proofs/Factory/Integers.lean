import SceneCompiler.Proofs.CSharp.Integers
import SceneCompiler.Proofs.Factory.Fields

/-!
# The integers in a factory

A factory writes integers for the steps of an easing function and for the duration of an animation, and
no others.  It leaves out a step that is the default, and refers to the scene for its duration.
-/

namespace SceneCompiler

structure IntegerLiteral where
  type : IntegerType
  text : String

namespace IntegerLiteral

def Fits (literal : IntegerLiteral) : Prop :=
  literal.type.Admits literal.text

def step (value : Number) : IntegerLiteral :=
  ⟨.step, CSharp.integer value⟩

def ticks (milliseconds : Number) : IntegerLiteral :=
  ⟨.ticks, CSharp.integer (CSharp.ticks milliseconds)⟩

end IntegerLiteral

variable {ρ σ : Type}

/-! ## Collecting integers -/

def Operand.integers : Operand ρ → List IntegerLiteral
  | .integer value => [.step value]
  | .timeSpan milliseconds => [.ticks milliseconds]
  | _ => []

def Statement.integers : Statement ρ → List IntegerLiteral
  | .assign _ _ value => value.integers
  | .add _ item => item.integers
  | .setParameter _ _ value => value.integers
  | .insertKeyFrame _ value _ => value.integers
  | .startAnimation _ _ animation => animation.integers
  | _ => []

def Creation.integers : Creation ρ → List IntegerLiteral
  | .call _ arguments => arguments.flatMap Operand.integers
  | _ => []

def Factory.integers (f : Factory ρ) : List IntegerLiteral :=
  f.creation.integers ++ f.statements.flatMap Statement.integers

section Renaming

variable (h : ρ → σ)

theorem Operand.integers_map (a : Operand ρ) : (a.map h).integers = a.integers := by
  cases a <;> rfl

theorem Statement.integers_map (s : Statement ρ) : (s.map h).integers = s.integers := by
  cases s with
  | assign _ _ value | add _ value | setParameter _ _ value | startAnimation _ _ value =>
    cases value <;> rfl
  | insertKeyFrame _ value _ => cases value <;> rfl
  | _ => rfl

theorem Creation.integers_map (c : Creation ρ) : (c.map h).integers = c.integers := by
  cases c with
  | call method arguments =>
    rw [Creation.map_call]
    simp [Creation.integers, List.flatMap_map, Operand.integers_map]
  | _ => rfl

theorem Factory.integers_map (f : Factory ρ) : (f.map h).integers = f.integers := by
  simp [Factory.integers, Factory.map, Creation.integers_map, Statement.integers_map, List.flatMap_map]

end Renaming

/-! ## The integers of an object -/

/-- The steps of an easing function, each with its default. -/
def Variant.steps : Variant ρ → List (Number × Number)
  | .stepEasing e => [(1, e.finalStep), (0, e.initialStep), (1, e.stepCount)]
  | _ => []

def Variant.durations : Variant ρ → List Number
  | .colorAnimation _ f => [f.duration]
  | .scalarAnimation _ f => [f.duration]
  | .vector2Animation _ f => [f.duration]
  | .vector3Animation _ f => [f.duration]
  | .pathAnimation _ f => [f.duration]
  | _ => []

namespace Object

def steps : Object ρ → List (Number × Number)
  | .composition _ variant => variant.steps
  | _ => []

def durations : Object ρ → List Number
  | .composition _ variant => variant.durations
  | _ => []

structure Measured (o : Object ρ) : Prop where
  steps : ∀ step ∈ o.steps, step.2.isInteger = true
  durations : ∀ duration ∈ o.durations, Number.le 0 duration = true

def inRange (o : Object ρ) : Bool :=
  (o.steps.all fun step => step.2.isStep) && o.durations.all (·.le Number.longestDuration)

theorem fits_default {o : Object ρ} {step : Number × Number} (h : step ∈ o.steps) :
    (IntegerLiteral.step step.1).Fits := by
  have hzero : (IntegerLiteral.step 0).Fits := ⟨0, by decide, by decide, by decide +kernel⟩
  have hone : (IntegerLiteral.step 1).Fits := ⟨1, by decide, by decide, by decide +kernel⟩
  cases o with
  | composition base variant =>
    cases variant with
    | stepEasing e =>
      obtain rfl | rfl | rfl : step = (1, e.finalStep) ∨ step = (0, e.initialStep) ∨
          step = (1, e.stepCount) := by simpa [Object.steps, Variant.steps] using h
      · exact hone
      · exact hzero
      · exact hone
    | _ => cases h
  | _ => cases h

end Object

/-! ## Statements without integers -/

namespace Construction

@[simp] theorem integers_assign (property : String) (value : Operand ρ) :
    (assign property value).integers = value.integers := rfl

@[simp] theorem integers_assignSome {α : Type} (property : String) (value : α → Operand ρ)
    (a : Option α) :
    (assignSome property value a).flatMap Statement.integers =
      a.toList.flatMap fun a => (value a).integers := by
  cases a <;> simp [assignSome]

@[simp] theorem integers_assignIf (differs : Bool) (property : String) (value : Operand ρ) :
    (assignIf differs property value).flatMap Statement.integers =
      if differs then value.integers else [] := by
  cases differs <;> simp [assignIf]

theorem integers_assignInteger (property : String) (standard value : Number) :
    (assignInteger property standard value : List (Statement ρ)).flatMap Statement.integers =
      ([(standard, value)].filter fun step => !step.2.equals step.1).map (.step ·.2) := by
  cases hsame : value.equals standard <;> simp [assignInteger, hsame, Operand.integers]

@[simp] theorem integers_fill {α : Type} (list : ItemList) (item : α → List (Statement ρ))
    (items : List α) :
    (fill list item items).flatMap Statement.integers =
      items.flatMap fun a => (item a).flatMap Statement.integers := by
  cases items <;> simp [fill, Statement.integers, List.flatMap_assoc]

@[simp] theorem integers_insertValues (values : PropertyValues) :
    (insertValues values : List (Statement ρ)).flatMap Statement.integers = [] := by
  unfold insertValues
  split <;> simp [Statement.integers, List.flatMap_map]

variable {n : Nat} (p : Plan n) (s : Settings) (r : Fin n)

@[simp] theorem integers_ask (i : Fin n) : (ask p r i).integers = [] := rfl

@[simp] theorem integers_setUp (base : Base (Fin n)) :
    (setUp s base).flatMap Statement.integers = [] := by
  simp [setUp, Operand.integers, List.flatMap_eq_nil_iff]

@[simp] theorem integers_visual (v : Visual (Fin n)) :
    (visual p r v).flatMap Statement.integers = [] := by
  simp [visual, ask, Operand.integers, Statement.integers, List.flatMap_eq_nil_iff]

@[simp] theorem integers_describedShapes (shapes : List (Fin n)) :
    (describedShapes p r shapes).flatMap Statement.integers = [] := by
  simp [describedShapes, Statement.integers, List.flatMap_eq_nil_iff]

@[simp] theorem integers_placement (q : Placement) :
    (placement q : List (Statement (Request n))).flatMap Statement.integers = [] := by
  simp [placement, Operand.integers, List.flatMap_eq_nil_iff]

@[simp] theorem integers_sprite (q : Sprite (Fin n)) :
    (sprite p r q).flatMap Statement.integers = [] := by
  simp [sprite, strokeCap, assignNumber, assignFlag, ask, Operand.integers, Statement.integers,
    List.flatMap_eq_nil_iff]

@[simp] theorem integers_trim (t : Trim) :
    (trim t : List (Statement (Request n))).flatMap Statement.integers = [] := by
  simp [trim, assignNumber, Operand.integers]

@[simp] theorem integers_parameters (q : Parameters (Fin n)) :
    (parameters p r q).flatMap Statement.integers = [] := by
  simp [parameters, ask, Operand.integers, Statement.integers, List.flatMap_map,
    List.flatMap_eq_nil_iff]

theorem integers_duration (milliseconds : Number) :
    (duration s milliseconds : Operand (Request n)).integers =
      if milliseconds.equals s.durationMs then [] else [.ticks milliseconds] := by
  unfold duration
  split <;> rfl

theorem integers_frames {α : Type} (q : Parameters (Fin n)) (f : Frames (Fin n) α)
    {value : α → Operand (Request n)} (describe : α → List String)
    (hvalue : ∀ a, (value a).integers = []) :
    (frames p s r q f value describe).flatMap Statement.integers =
      if f.duration.equals s.durationMs then [] else [.ticks f.duration] := by
  have hframes : (f.keyFrames.flatMap (keyFrame p r value describe)).flatMap Statement.integers =
      [] := by
    rw [List.flatMap_assoc, List.flatMap_eq_nil_iff]
    intro frame _
    unfold keyFrame
    split <;> simp [Statement.integers, hvalue, List.flatMap_eq_nil_iff]
  rw [frames, List.flatMap_append, List.flatMap_cons, hframes, integers_parameters, integers_assign,
    integers_duration, List.nil_append, List.append_nil]

end Construction

namespace Plan

variable {n : Nat} (p : Plan n)

@[simp] theorem integers_startAnimations (r : Fin n) (base : Base (Fin n)) :
    (p.startAnimations r base).flatMap Statement.integers = [] := by
  have hnone : CoversStarts fun s : Statement (Request n) => s.integers = [] :=
    ⟨rfl, fun _ _ => rfl, fun _ => rfl, fun _ _ => rfl, fun _ _ => rfl, fun _ _ _ => rfl,
      fun _ _ _ _ => rfl, fun _ => rfl⟩
  exact List.flatMap_eq_nil_iff.mpr (hnone.startAnimations r base)

theorem integers_factory (s : Settings) (r : Fin n) :
    (p.factory s r).integers =
      ((p.merge.object r).steps.filter fun step => !step.2.equals step.1).map (.step ·.2) ++
        ((p.merge.object r).durations.filter (!·.equals s.durationMs)).map .ticks := by
  have hframes {α : Type} (base : Base (Fin n)) (method : String) (q : Parameters (Fin n))
      (f : Frames (Fin n) α) {value : α → Operand (Request n)} (describe : α → List String)
      (hvalue : ∀ a, (value a).integers = []) :
      (Construction.variantFactory.full p s r base method
          (Construction.frames p s r q f value describe)).integers =
        ([f.duration].filter (!·.equals s.durationMs)).map .ticks := by
    have hown := Construction.integers_frames p s r q f describe hvalue
    simp only [Construction.variantFactory.full, Factory.integers, Creation.integers,
      List.flatMap_append, Construction.integers_setUp, hown, integers_startAnimations]
    cases hsame : f.duration.equals s.durationMs <;> simp [hsame]
  unfold factory
  cases p.merge.object r with
  | composition base variant =>
    cases variant with
    | stepEasing e =>
      have hsteps : (Object.composition base (.stepEasing e)).steps =
          [(1, e.finalStep)] ++ ([(0, e.initialStep)] ++ [(1, e.stepCount)]) := rfl
      rw [hsteps, List.filter_append, List.filter_append, List.map_append, List.map_append]
      simp [Construction.variantFactory, Factory.integers, Creation.integers,
        Construction.stepEasing, Construction.integers_assignInteger, Construction.assignFlag,
        Operand.integers, Object.durations, Variant.durations]
    | colorAnimation q f => exact hframes base _ q f _ fun _ => rfl
    | scalarAnimation q f => exact hframes base _ q f _ fun _ => rfl
    | vector2Animation q f => exact hframes base _ q f _ fun _ => rfl
    | vector3Animation q f => exact hframes base _ q f _ fun _ => rfl
    | pathAnimation q f => exact hframes base _ q f _ fun _ => rfl
    | _ =>
      simp [Construction.variantFactory, Construction.variantFactory.full, Factory.integers,
        Creation.integers, Object.steps, Variant.steps, Object.durations, Variant.durations,
        Operand.integers, Statement.integers, Construction.ask, Construction.assign,
        Construction.insetClip, Construction.assignVector2, Construction.assignNumber]
  | path description source => rfl
  | canvas description geometry => cases geometry <;> rfl

theorem fits_factory_iff {s : Settings} {r : Fin n} (hobject : (p.merge.object r).Measured)
    (hscene : (IntegerLiteral.ticks s.durationMs).Fits) :
    (∀ literal ∈ (p.factory s r).integers, literal.Fits) ↔ (p.merge.object r).inRange = true := by
  have hstep : ∀ step ∈ (p.merge.object r).steps,
      ((!step.2.equals step.1) = true → (IntegerLiteral.step step.2).Fits) ↔ step.2.isStep = true := by
    intro step hmem
    rw [← Number.admits_step_iff (hobject.steps step hmem)]
    refine ⟨fun hfits => ?_, fun hfits _ => hfits⟩
    cases hsame : step.2.equals step.1 with
    | true =>
      rw [CSharp.integer_eq_of_equals hsame]
      exact Object.fits_default hmem
    | false => exact hfits (by rw [hsame]; rfl)
  have hduration : ∀ duration ∈ (p.merge.object r).durations,
      ((!duration.equals s.durationMs) = true → (IntegerLiteral.ticks duration).Fits) ↔
        duration.le Number.longestDuration = true := by
    intro duration hmem
    rw [← Number.admits_ticks_iff (hobject.durations duration hmem)]
    refine ⟨fun hfits => ?_, fun hfits _ => hfits⟩
    cases hsame : duration.equals s.durationMs with
    | true =>
      rw [CSharp.integer_ticks_of_equals hsame]
      exact hscene
    | false => exact hfits (by rw [hsame]; rfl)
  rw [integers_factory, List.forall_mem_append, List.forall_mem_map, List.forall_mem_map,
    Object.inRange, Bool.and_eq_true, List.all_eq_true, List.all_eq_true]
  simp only [List.mem_filter, and_imp]
  exact and_congr (forall₂_congr hstep) (forall₂_congr hduration)

end Plan

end SceneCompiler
