import SceneCompiler.Proofs.CSharp.LineEnds
import SceneCompiler.Proofs.Factory.Renaming
import SceneCompiler.Proofs.Factory.Requests
import SceneCompiler.Proofs.Naming.Distinct

/-!
# The texts in a factory

The texts of a scene that a factory writes as string literals are those of its object and those of the
transient animations that it starts.  Descriptions are written as comments only.
-/

namespace SceneCompiler

open Text

variable {ρ : Type}

section Answers

variable {σ : Type} (f : ρ → σ)

theorem Operand.fits_map (a : Operand ρ) : (a.map f).fits = a.fits := by
  cases a <;> rfl

theorem Statement.fits_map (s : Statement ρ) : (s.map f).fits = s.fits := by
  cases s with
  | assign _ _ value | add _ value | setParameter _ _ value | startAnimation _ _ value =>
    cases value <;> rfl
  | insertKeyFrame _ value _ => cases value <;> rfl
  | _ => rfl

theorem Creation.fits_map (c : Creation ρ) : (c.map f).fits = c.fits := by
  cases c with
  | call method arguments =>
    rw [Creation.map_call]
    simp [Creation.fits, List.all_map, Function.comp_def, Operand.fits_map]
  | _ => rfl

theorem Factory.fits_creation_map (factory : Factory ρ) :
    (factory.map f).creation.fits = factory.creation.fits :=
  Creation.fits_map f factory.creation

theorem Factory.fits_statements_map (factory : Factory ρ) :
    (factory.map f).statements.all Statement.fits = factory.statements.all Statement.fits := by
  rw [Factory.map, List.all_map]
  congr 1
  funext s
  exact Statement.fits_map f s

end Answers

/-! ## The texts of an object -/

def PropertyValues.names (values : PropertyValues) : List String :=
  values.scalars.map Prod.fst ++ values.vector2s.map Prod.fst

/-- The target, unless it is blank, and the names of the parameters. -/
def Parameters.literals (q : Parameters ρ) : List String :=
  (Text.present? q.target).toList ++ q.references.map Prod.fst

def FrameValue.formula? {α : Type} : FrameValue α → Option String
  | .value _ => none
  | .expression text => some text

def Frames.literals {α : Type} (f : Frames ρ α) : List String :=
  f.keyFrames.filterMap fun frame => frame.value.formula?

def Variant.literals : Variant ρ → List String
  | .expressionAnimation q expression => q.literals ++ [expression]
  | .colorAnimation q f => q.literals ++ f.literals
  | .scalarAnimation q f => q.literals ++ f.literals
  | .vector2Animation q f => q.literals ++ f.literals
  | .vector3Animation q f => q.literals ++ f.literals
  | .pathAnimation q f => q.literals ++ f.literals
  | _ => []

mutual
def Animator.properties : Animator ρ → List String
  | .plain property _ => [property]
  | .controlled property _ _ onProperties onController =>
    property :: (animatorProperties onProperties ++ animatorProperties onController)
def animatorProperties : List (Animator ρ) → List String
  | [] => []
  | animator :: rest => animator.properties ++ animatorProperties rest
end

theorem animatorProperties_append (as bs : List (Animator ρ)) :
    animatorProperties (as ++ bs) = animatorProperties as ++ animatorProperties bs := by
  induction as with
  | nil => rfl
  | cons a as ih => simp [animatorProperties, ih]

namespace Object

def formulas : Object ρ → List String
  | .composition _ variant => variant.literals
  | _ => []

def literals (keep : Bool) : Object ρ → List String
  | .composition base variant =>
    (if keep then Text.present? base.description.comment else none).toList ++
      base.values.names ++ variant.literals ++
      (if variant.startsAnimations then animatorProperties base.animators else [])
  | _ => []

end Object

variable {n : Nat}

namespace Construction

/-! ## What fits -/

section

variable {property : String} (hproperty : unbroken property = true)

include hproperty

theorem fits_assign (value : Operand ρ) : (assign property value).fits = value.fits := by
  rw [assign, Statement.fits, hproperty, Bool.true_and]

theorem fits_assignSome {α : Type} (value : α → Operand ρ) (a : Option α) :
    (assignSome property value a).all Statement.fits = a.toList.all fun a => (value a).fits := by
  rw [assignSome, List.all_map]
  congr 1
  funext a
  exact fits_assign hproperty (value a)

theorem fits_assignIf (differs : Bool) (value : Operand ρ) :
    (assignIf differs property value).all Statement.fits = (!differs || value.fits) := by
  cases differs
  · rfl
  · rw [assignIf, if_pos rfl, List.all_cons, fits_assign hproperty]
    exact Bool.and_true _

end

theorem fits_fill {α : Type} (list : ItemList) (item : α → List (Statement ρ)) (items : List α) :
    (fill list item items).all Statement.fits =
      items.all fun a => (item a).all Statement.fits := by
  cases items with
  | nil => rfl
  | cons a items => simp [fill, Statement.fits, List.all_flatMap]

theorem fits_insertValues (values : PropertyValues) :
    (insertValues (σ := ρ) values).all Statement.fits = values.names.all fitsLiteral := by
  unfold insertValues
  split
  · rename_i hempty
    simp only [PropertyValues.isEmpty, Bool.and_eq_true, List.isEmpty_iff] at hempty
    simp [PropertyValues.names, hempty.1, hempty.2]
  · simp [PropertyValues.names, Statement.fits, Function.comp_def]

variable (p : Plan n) (s : Settings) (r : Fin n)

theorem fits_setUp (base : Base (Fin n)) :
    (setUp s base).all Statement.fits =
      ((comment? s base).toList.all fitsLiteral && base.values.names.all fitsLiteral) := by
  rw [setUp, List.all_append, fits_assignSome (by decide), fits_insertValues]
  rfl

theorem fits_parameters (q : Parameters (Fin n)) :
    (parameters p r q).all Statement.fits = q.literals.all fitsLiteral := by
  rw [parameters, List.all_append, fits_assignSome (by decide), Parameters.literals,
    List.all_append, List.all_map, List.all_map]
  congr 2
  funext entry
  exact Bool.and_true _

theorem fits_visual (v : Visual (Fin n)) : (visual p r v).all Statement.fits = true := by
  simp (disch := decide) [visual, fits_assignSome, fits_fill, ask, Operand.fits, Statement.fits]

theorem fits_insetClip (c : InsetClip) :
    (insetClip (n := n) c).all Statement.fits = true := by
  simp (disch := decide) [insetClip, assignVector2, assignNumber, fits_assignIf, Operand.fits]

theorem fits_placement (q : Placement) : (placement (n := n) q).all Statement.fits = true := by
  simp (disch := decide) [placement, fits_assignSome, Operand.fits]

theorem fits_sprite (q : Sprite (Fin n)) : (sprite p r q).all Statement.fits = true := by
  simp (disch := decide) [sprite, strokeCap, assignNumber, assignFlag, fits_assignSome,
    fits_assignIf, fits_fill, ask, Operand.fits, Statement.fits]

theorem fits_trim (t : Trim) : (trim (n := n) t).all Statement.fits = true := by
  simp (disch := decide) [trim, assignNumber, fits_assignIf, Operand.fits]

theorem fits_stepEasing (e : StepEasing) : (stepEasing (n := n) e).all Statement.fits = true := by
  simp (disch := decide) [stepEasing, assignInteger, assignFlag, fits_assignIf, Operand.fits]

theorem fits_describedShapes (shapes : List (Fin n)) :
    (describedShapes p r shapes).all Statement.fits =
      (shapes.filterMap fun i => (p.merge.object i).description.short).all Layout.fitsRemark := by
  rw [describedShapes, fits_fill, List.all_filterMap]
  congr 1
  funext i
  cases (p.merge.object i).description.short with
  | none => rfl
  | some text => exact Bool.and_true _

section Frames

variable {α : Type} {value : α → Operand (Request n)} (hvalue : ∀ v, (value v).fits = true)

include hvalue

theorem fits_keyFrames (describe : α → List String) {frames : List (KeyFrame (Fin n) α)}
    (hdescribe : ∀ frame ∈ frames, ∀ v ∈ frame.value.constant?, ∀ text ∈ describe v,
      Layout.fitsRemark text = true) :
    (frames.flatMap (keyFrame p r value describe)).all Statement.fits =
      (frames.filterMap fun frame => frame.value.formula?).all fitsLiteral := by
  induction frames with
  | nil => rfl
  | cons frame frames ih =>
    rw [List.flatMap_cons, List.all_append, ih fun frame hframe =>
      hdescribe frame (List.mem_cons_of_mem _ hframe), List.filterMap_cons]
    have hremarks := hdescribe frame List.mem_cons_self
    unfold keyFrame
    cases hv : frame.value with
    | value v =>
      rw [hv] at hremarks
      have hall := List.all_eq_true.mpr (hremarks v rfl)
      simp [FrameValue.formula?, Statement.fits, hvalue, Function.comp_def, hall]
    | expression text => simp [FrameValue.formula?, Statement.fits]

theorem fits_frames (describe : α → List String) (q : Parameters (Fin n)) {f : Frames (Fin n) α}
    (hdescribe : ∀ frame ∈ f.keyFrames, ∀ v ∈ frame.value.constant?, ∀ text ∈ describe v,
      Layout.fitsRemark text = true) :
    (frames p s r q f value describe).all Statement.fits =
      (q.literals ++ f.literals).all fitsLiteral := by
  have hduration : (duration (n := n) s f.duration).fits = true := by
    unfold duration
    split <;> rfl
  rw [frames, List.all_append, List.all_cons, fits_parameters, fits_assign (by decide), hduration,
    fits_keyFrames p r hvalue describe hdescribe, List.all_append]
  rfl

theorem fits_plainFrames (q : Parameters (Fin n)) (f : Frames (Fin n) α) :
    (frames p s r q f value fun _ => []).all Statement.fits =
      (q.literals ++ f.literals).all fitsLiteral :=
  fits_frames p s r hvalue _ q fun _ _ _ _ _ htext => absurd htext List.not_mem_nil

end Frames

end Construction

/-! ## Bindings -/

namespace Plan

variable (p : Plan n)

def boundLiterals (i : Fin n) : List String :=
  if (p.merge.object i).isExpressionAnimation && !(p.site i).retained then
    (p.merge.object i).formulas
  else []

theorem fits_startTransient (owner : Option (Fin n)) (target : Target) (property : String)
    (animation : Fin n) (q : Parameters (Fin n)) (expression : String) :
    (p.startTransient owner target property animation q expression).all Statement.fits =
      (fitsLiteral property && (q.literals ++ [expression]).all fitsLiteral) := by
  have hexpression : unbroken "Expression" = true := by decide
  have htarget : unbroken "Target" = true := by decide
  have howner (object : Fin n) (request : Request n) :
      (if owner = some object then Operand.holder Holder.result
        else Operand.object request).fits = true := by
    split <;> rfl
  have htext (text : String) : (Operand.text text : Operand (Request n)).fits = fitsLiteral text :=
    rfl
  have hholder (h : Holder) : (Operand.holder h : Operand (Request n)).fits = true := rfl
  simp only [startTransient, Parameters.literals, List.all_append, List.all_cons, List.all_nil,
    List.all_map, Function.comp_def, Statement.fits, howner, hexpression, htarget, htext, hholder,
    Bool.and_true, Bool.true_and]
  rw [Bool.eq_iff_iff]
  simp only [Bool.and_eq_true]
  tauto

theorem fits_start (caller : Fin n) (owner : Option (Fin n)) (target : Target) (property : String)
    (animation : Fin n) :
    (p.start caller owner target property animation).all Statement.fits =
      (fitsLiteral property && (p.boundLiterals animation).all fitsLiteral) := by
  have hplain (q : Request n) : [Statement.startAnimation target property (.object q)].all
      Statement.fits = fitsLiteral property := by
    simp [Statement.fits, Operand.fits]
  unfold start boundLiterals
  cases p.merge.object animation with
  | composition base variant =>
    cases variant with
    | expressionAnimation q expression =>
      cases (p.site animation).retained with
      | true => simp [hplain]
      | false => exact p.fits_startTransient owner target property animation q expression
    | _ => simp [hplain, Object.isExpressionAnimation]
  | _ => simp [hplain, Object.isExpressionAnimation]

mutual
theorem fits_bind (caller : Fin n) (owner : Option (Fin n)) (target : Target) (depth : Nat)
    (a : Animator (Fin n)) :
    (p.bind caller owner target depth a).all Statement.fits =
      (a.properties.all fitsLiteral &&
        a.references.all fun i => (p.boundLiterals i).all fitsLiteral) := by
  cases a with
  | plain property animation =>
    simp [bind, fits_start, Animator.properties, Animator.references]
  | controlled property animation values onProperties onController =>
    have hproperties := fits_bindAll caller none ⟨.controller depth, true⟩ (depth + 1) onProperties
    have hcontroller := fits_bindAll caller none ⟨.controller depth, false⟩ (depth + 1) onController
    simp only [bind, List.all_append, List.all_cons, List.all_nil, fits_start, hproperties,
      hcontroller, Statement.fits, Animator.properties, Animator.references, Bool.and_true]
    rw [Bool.eq_iff_iff]
    simp only [Bool.and_eq_true]
    tauto
theorem fits_bindAll (caller : Fin n) (owner : Option (Fin n)) (target : Target) (depth : Nat)
    (as : List (Animator (Fin n))) :
    (p.bindAll caller owner target depth as).all Statement.fits =
      ((animatorProperties as).all fitsLiteral &&
        (animatorReferences as).all fun i => (p.boundLiterals i).all fitsLiteral) := by
  cases as with
  | nil => simp [bindAll, animatorProperties, animatorReferences]
  | cons a as =>
    simp only [bindAll, List.all_append, fits_bind caller owner target depth a,
      fits_bindAll caller owner target depth as, animatorProperties, animatorReferences]
    rw [Bool.eq_iff_iff]
    simp only [Bool.and_eq_true]
    tauto
end

theorem fits_declareControllers (declared : List Nat) (ss : List (Statement ρ)) :
    (declareControllers declared ss).all Statement.fits = ss.all Statement.fits := by
  fun_induction declareControllers declared ss <;> simp_all [Statement.fits]

theorem fits_startAnimations (r : Fin n) (base : Base (Fin n)) :
    (p.startAnimations r base).all Statement.fits =
      ((animatorProperties base.animators).all fitsLiteral &&
        (animatorReferences base.animators).all fun i => (p.boundLiterals i).all fitsLiteral) := by
  rw [startAnimations, fits_declareControllers, List.all_append, fits_bindAll, fits_bindAll,
    Base.animators, animatorProperties_append, animatorReferences_append, List.all_append,
    List.all_append, Bool.eq_iff_iff]
  simp only [Bool.and_eq_true]
  tauto

/-! ## Factories -/

end Plan

def Merge.shapeRemarks (m : Merge n) (r : Fin n) : List String :=
  match m.object r with
  | .composition _ (.shapeVisual _ shapes _) =>
    shapes.filterMap fun i => (m.object i).description.short
  | _ => []

namespace Construction

variable (p : Plan n) (s : Settings) (r : Fin n)

theorem fits_variantFactory (base : Base (Fin n)) (variant : Variant (Fin n))
    (hobject : p.merge.object r = .composition base variant)
    (hcolors : ∀ c ∈ (p.merge.object r).colors, Layout.fitsRemark c.name = true) :
    (variantFactory p s r base variant).statements.all Statement.fits =
      ((setUp s base).all Statement.fits &&
        (variant.literals.all fitsLiteral && (p.merge.shapeRemarks r).all Layout.fitsRemark) &&
        (!variant.startsAnimations || (p.startAnimations r base).all Statement.fits)) := by
  have hfull (method : String) (own : List (Statement (Request n)))
      (hown : own.all Statement.fits = (variant.literals.all fitsLiteral &&
        (p.merge.shapeRemarks r).all Layout.fitsRemark)) (hstarts : variant.startsAnimations = true) :
      (variantFactory.full p s r base method own).statements.all Statement.fits =
        ((setUp s base).all Statement.fits &&
          (variant.literals.all fitsLiteral && (p.merge.shapeRemarks r).all Layout.fitsRemark) &&
          (!variant.startsAnimations || (p.startAnimations r base).all Statement.fits)) := by
    rw [variantFactory.full, List.all_append, List.all_append, hown, hstarts]
    rfl
  unfold Merge.shapeRemarks at hfull ⊢
  rw [hobject] at hcolors hfull ⊢
  cases variant with
  | containerVisual v => exact hfull _ _ (fits_visual p r v) rfl
  | shapeVisual v shapes box =>
    refine hfull _ _ ?_ rfl
    rw [List.all_append, List.all_append, fits_visual, fits_describedShapes,
      fits_assignSome (by decide)]
    simp [ask, Operand.fits, Variant.literals]
  | insetClip c => exact hfull _ _ (fits_insetClip c) rfl
  | viewBox size => exact hfull _ _ (by simp +decide [fits_assign, Operand.fits, Variant.literals]) rfl
  | containerShape q shapes =>
    refine hfull _ _ ?_ rfl
    rw [List.all_append, fits_placement, fits_fill]
    simp [ask, Statement.fits, Operand.fits, Variant.literals]
  | spriteShape q sprite =>
    refine hfull _ _ ?_ rfl
    rw [List.all_append, fits_placement, fits_sprite]
    rfl
  | ellipseGeometry t center radius =>
    refine hfull _ _ ?_ rfl
    rw [List.all_append, List.all_append, fits_trim, assignVector2, fits_assignIf (by decide)]
    simp +decide [fits_assign, Operand.fits, Variant.literals]
  | rectangleGeometry t size =>
    refine hfull _ _ ?_ rfl
    rw [List.all_append, fits_trim]
    simp +decide [fits_assign, Operand.fits, Variant.literals]
  | roundedRectangleGeometry t size radius =>
    refine hfull _ _ ?_ rfl
    rw [List.all_append, fits_trim]
    simp +decide [fits_assign, Operand.fits, Variant.literals]
  | pathGeometry t path =>
    simp [variantFactory, fits_trim, Variant.literals, Variant.startsAnimations]
  | colorBrush c => simp [variantFactory, Variant.literals, Variant.startsAnimations]
  | linearEasing => simp [variantFactory, Variant.literals, Variant.startsAnimations]
  | cubicBezierEasing a b => simp [variantFactory, Variant.literals, Variant.startsAnimations]
  | stepEasing e =>
    simp [variantFactory, fits_stepEasing, Variant.literals, Variant.startsAnimations]
  | expressionAnimation q expression =>
    have hexpression : unbroken "Expression" = true := by decide
    simp [variantFactory, fits_parameters, fits_assign hexpression, Operand.fits,
      Variant.literals, Variant.startsAnimations]
  | colorAnimation q f =>
    refine hfull _ _ ?_ rfl
    rw [fits_frames p s r (fun _ => rfl) _ q, Variant.literals, List.all_nil, Bool.and_true]
    intro frame hframe c hc text htext
    rw [List.mem_singleton.mp htext]
    exact hcolors c (List.mem_filterMap.mpr ⟨frame, hframe, hc⟩)
  | scalarAnimation q f =>
    exact hfull _ _ ((fits_plainFrames p s r (fun _ => rfl) q f).trans (Bool.and_true _).symm) rfl
  | vector2Animation q f =>
    exact hfull _ _ ((fits_plainFrames p s r (fun _ => rfl) q f).trans (Bool.and_true _).symm) rfl
  | vector3Animation q f =>
    exact hfull _ _ ((fits_plainFrames p s r (fun _ => rfl) q f).trans (Bool.and_true _).symm) rfl
  | pathAnimation q f =>
    exact hfull _ _ ((fits_plainFrames p s r (fun _ => rfl) q f).trans (Bool.and_true _).symm) rfl

end Construction

namespace Plan

variable (p : Plan n) (s : Settings) (r : Fin n)

theorem fits_factory (hcolors : ∀ c ∈ (p.merge.object r).colors, Layout.fitsRemark c.name = true) :
    (p.factory s r).statements.all Statement.fits =
      (((p.merge.object r).literals s.setComments).all fitsLiteral &&
        ((animatorReferences (p.merge.object r).started).all fun i =>
          (p.boundLiterals i).all fitsLiteral) &&
        (p.merge.shapeRemarks r).all Layout.fitsRemark) := by
  unfold factory
  cases hobject : p.merge.object r with
  | composition base variant =>
    simp only [Construction.fits_variantFactory p s r base variant hobject hcolors,
      Construction.fits_setUp, fits_startAnimations, Object.literals, Object.started,
      Construction.comment?, List.all_append]
    cases variant.startsAnimations <;> rw [Bool.eq_iff_iff] <;>
      simp only [Bool.and_eq_true, Bool.not_true, Bool.not_false, Bool.false_or, Bool.true_or,
        if_true, Bool.false_eq_true, if_false, List.all_nil, animatorReferences] <;> tauto
  | path description source =>
    rw [Merge.shapeRemarks, hobject]
    rfl
  | canvas description geometry =>
    rw [Merge.shapeRemarks, hobject]
    cases geometry <;> rfl

theorem fits_creation : (p.factory s r).creation.fits = true := by
  unfold factory
  cases p.merge.object r with
  | composition base variant =>
    cases variant <;>
      simp +decide [Construction.variantFactory, Construction.variantFactory.full, Creation.fits,
        Construction.ask, Operand.fits]
  | path description source => rfl
  | canvas description geometry => cases geometry <;> rfl

theorem statements_of_bare :
    (p.factory s r).bare = true → (p.factory s r).statements = [] := by
  have hbareOr (creation : Creation (Request n)) (ss : List (Statement (Request n)))
      (h : (Construction.bareOr creation ss).bare = true) :
      (Construction.bareOr creation ss).statements = [] := by
    unfold Construction.bareOr at h ⊢
    split at h
    · rw [if_pos ‹_›]
    · cases h
  unfold factory
  cases p.merge.object r with
  | composition base variant =>
    cases variant with
    | colorBrush c => exact hbareOr _ _
    | linearEasing => exact hbareOr _ _
    | cubicBezierEasing a b => exact hbareOr _ _
    | _ => exact nofun
  | path description source => exact nofun
  | canvas description geometry => cases geometry <;> exact nofun

end Plan

end SceneCompiler
