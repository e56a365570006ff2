import SceneCompiler.Proofs.Factory.Renaming
import SceneCompiler.Proofs.Plan.Embedding

/-!
# The code of a graph inside another

Factories ask for the same objects at other places, and the answers are the same, so that the same
code is written or the same fault is found.
-/

namespace SceneCompiler

/-! ## Factories -/

variable {n k : Nat} {φ : Fin n → Fin k}

def Request.map (φ : Fin n → Fin k) (request : Request n) : Request k :=
  ⟨φ request.caller, φ request.callee⟩

namespace Plan.Embeds

variable {p : Plan n} {p' : Plan k}

section Start

variable (h : p.Embeds p' φ)

include h

theorem request (caller object : Fin n) :
    p'.request (φ caller) (φ object) = (p.request caller object).map φ := by
  rw [Plan.request, h.merge.representative]
  rfl

theorem startTransient (owner : Option (Fin n)) (target : Target) (property : String)
    (animation : Fin n) (parameters : Parameters (Fin n)) (expression : String) :
    p'.startTransient (owner.map φ) target property (φ animation) (parameters.map φ) expression =
      (p.startTransient owner target property animation parameters expression).map
        (Statement.map (Request.map φ)) := by
  have howner (object : Fin n) : owner.map φ = some (φ object) ↔ owner = some object := by
    cases owner <;> simp [h.merge.injective.eq_iff]
  have hif (object : Fin n) (a b : Operand (Request n)) :
      Operand.map (Request.map φ) (if owner = some object then a else b) =
        if owner.map φ = some (φ object) then a.map (Request.map φ) else b.map (Request.map φ) := by
    rw [apply_ite (Operand.map (Request.map φ))]
    exact if_congr (howner object).symm rfl rfl
  simp only [Plan.startTransient, Parameters.map, h.merge.representative, h.request, hif,
    List.map_append, List.map_map, Function.comp_def, List.map_cons, List.map_nil,
    Statement.map_clearParameters, Statement.map_assign, Statement.map_setParameter,
    Statement.map_startAnimation, Operand.map_text, Operand.map_holder, Operand.map_object]

theorem start (caller : Fin n) (owner : Option (Fin n)) (target : Target) (property : String)
    (animation : Fin n) :
    p'.start (φ caller) (owner.map φ) target property (φ animation) =
      (p.start caller owner target property animation).map (Statement.map (Request.map φ)) := by
  simp only [Plan.start, h.merge.object_eq, h.site, h.request]
  cases p.merge.object animation with
  | composition base variant =>
    cases variant with
    | expressionAnimation parameters expression =>
      simp only [Object.map, Variant.map]
      split
      · rfl
      · exact h.startTransient owner target property animation parameters expression
    | _ => rfl
  | _ => rfl

end Start

mutual
theorem bind (h : p.Embeds p' φ) (caller : Fin n) (owner : Option (Fin n)) (target : Target)
    (depth : Nat) (a : Animator (Fin n)) :
    p'.bind (φ caller) (owner.map φ) target depth (a.map φ) =
      (p.bind caller owner target depth a).map (Statement.map (Request.map φ)) := by
  cases a with
  | plain property animation => simp only [Animator.map, Plan.bind, h.start]
  | controlled property animation values onProperties onController =>
    have hproperties := bindAll h caller none ⟨.controller depth, true⟩ (depth + 1) onProperties
    have hcontroller := bindAll h caller none ⟨.controller depth, false⟩ (depth + 1) onController
    simp only [Option.map_none] at hproperties hcontroller
    simp [Animator.map, Plan.bind, h.start, hproperties, hcontroller]
theorem bindAll (h : p.Embeds p' φ) (caller : Fin n) (owner : Option (Fin n)) (target : Target)
    (depth : Nat) (as : List (Animator (Fin n))) :
    p'.bindAll (φ caller) (owner.map φ) target depth (mapAnimators φ as) =
      (p.bindAll caller owner target depth as).map (Statement.map (Request.map φ)) := by
  cases as with
  | nil => simp [mapAnimators, Plan.bindAll]
  | cons a as =>
    simp [mapAnimators, Plan.bindAll, bind h caller owner target depth a,
      bindAll h caller owner target depth as]
end

variable (h : p.Embeds p' φ)

include h

theorem startAnimations (r : Fin n) (base : Base (Fin n)) :
    p'.startAnimations (φ r) (base.map φ) =
      (p.startAnimations r base).map (Statement.map (Request.map φ)) := by
  have hbind := h.bindAll r (some r)
  simp only [Option.map_some] at hbind
  rw [Plan.startAnimations, Plan.startAnimations, ← declareControllers_map, List.map_append]
  simp only [Base.map, hbind]

end Plan.Embeds

namespace Construction

variable {p : Plan n} {p' : Plan k} (h : p.Embeds p' φ) (s : Settings) (r : Fin n)

theorem setUp_map (base : Base (Fin n)) :
    setUp s (base.map φ) = (setUp s base).map (Statement.map (Request.map φ)) := by
  simp [setUp, comment?, Base.map]

theorem duration_map (milliseconds : Number) :
    (duration s milliseconds : Operand (Request k)) =
      (duration s milliseconds).map (Request.map φ) := by
  rw [duration, duration]
  split <;> rfl

theorem bareOr_map (creation : Creation (Request n)) (statements : List (Statement (Request n))) :
    bareOr (creation.map (Request.map φ)) (statements.map (Statement.map (Request.map φ))) =
      (bareOr creation statements).map (Request.map φ) := by
  cases statements <;> rfl

include h

theorem ask_map (i : Fin n) : ask p' (φ r) (φ i) = (ask p r i).map (Request.map φ) := by
  rw [ask, h.request]
  rfl

theorem visual_map (v : Visual (Fin n)) :
    visual p' (φ r) (v.map φ) = (visual p r v).map (Statement.map (Request.map φ)) := by
  simp [visual, Visual.map, assignSome_of_map, fill_of_map, ask_map h]

theorem describedShapes_map (shapes : List (Fin n)) :
    describedShapes p' (φ r) (shapes.map φ) =
      (describedShapes p r shapes).map (Statement.map (Request.map φ)) := by
  simp [describedShapes, fill_of_map, ask_map h, h.merge.object_eq, Function.comp_def]

theorem sprite_map (q : Sprite (Fin n)) :
    sprite p' (φ r) (q.map φ) = (sprite p r q).map (Statement.map (Request.map φ)) := by
  simp [sprite, Sprite.map, assignSome_of_map, ask_map h, strokeCap, assignNumber, assignFlag]

theorem parameters_map (q : Parameters (Fin n)) :
    parameters p' (φ r) (q.map φ) =
      (parameters p r q).map (Statement.map (Request.map φ)) := by
  simp [parameters, Parameters.map, ask_map h, Function.comp_def]

theorem frames_map {α β : Type} (g : α → β) (q : Parameters (Fin n)) (f : Frames (Fin n) α)
    {value : α → Operand (Request n)} {value' : β → Operand (Request k)}
    (hvalue : ∀ a, value' (g a) = (value a).map (Request.map φ)) {describe : α → List String}
    {describe' : β → List String} (hdescribe : ∀ a, describe' (g a) = describe a) :
    frames p' s (φ r) (q.map φ) (f.map φ g) value' describe' =
      (frames p s r q f value describe).map (Statement.map (Request.map φ)) := by
  have hframe (frame : KeyFrame (Fin n) α) :
      keyFrame p' (φ r) value' describe' (frame.map φ g) =
        (keyFrame p r value describe frame).map (Statement.map (Request.map φ)) := by
    cases hframe : frame.value with
    | value v => simp [keyFrame, KeyFrame.map, hframe, FrameValue.map, hvalue, hdescribe, h.request,
        Function.comp_def]
    | expression text => simp [keyFrame, KeyFrame.map, hframe, FrameValue.map, h.request]
  simp only [frames, parameters_map h, Frames.map, List.flatMap_map, hframe, List.map_append,
    List.map_cons, List.map_flatMap, assign, Statement.map_assign]
  rw [← duration_map]

theorem variantFactory_map (base : Base (Fin n)) (variant : Variant (Fin n)) :
    variantFactory p' s (φ r) (base.map φ) (variant.map φ) =
      (variantFactory p s r base variant).map (Request.map φ) := by
  have hfull (method : String) {own : List (Statement (Request n))}
      {own' : List (Statement (Request k))}
      (hown : own' = own.map (Statement.map (Request.map φ))) :
      variantFactory.full p' s (φ r) (base.map φ) method own' =
        (variantFactory.full p s r base method own).map (Request.map φ) := by
    simp [variantFactory.full, Factory.map, Creation.map_call, setUp_map, h.startAnimations, hown]
  cases variant with
  | containerVisual v => exact hfull _ (visual_map h r v)
  | shapeVisual v shapes box =>
    refine hfull _ ?_
    simp [visual_map h, describedShapes_map h, assignSome_of_map, ask_map h]
  | insetClip c => exact hfull _ (insetClip_map _ c).symm
  | viewBox size => exact hfull _ rfl
  | containerShape q shapes =>
    refine hfull _ ?_
    simp [fill_of_map, ask_map h]
  | spriteShape q sprite =>
    refine hfull _ ?_
    simp [sprite_map h]
  | ellipseGeometry t center radius =>
    refine hfull _ ?_
    simp [assignVector2, assign]
  | rectangleGeometry t size =>
    refine hfull _ ?_
    simp [assign]
  | roundedRectangleGeometry t size radius =>
    refine hfull _ ?_
    simp [assign]
  | pathGeometry t path =>
    simp [variantFactory, Variant.map, Factory.map, Creation.map_call, setUp_map,
      h.startAnimations, ask_map h]
  | colorBrush c =>
    simp [variantFactory, Variant.map, setUp_map, h.startAnimations, ← bareOr_map,
      Creation.map_call]
  | linearEasing =>
    simp [variantFactory, Variant.map, setUp_map, ← bareOr_map, Creation.map_call]
  | cubicBezierEasing a b =>
    simp [variantFactory, Variant.map, setUp_map, ← bareOr_map, Creation.map_call]
  | stepEasing e =>
    simp [variantFactory, Variant.map, Factory.map, Creation.map_call, setUp_map]
  | expressionAnimation q expression =>
    simp [variantFactory, Variant.map, Factory.map, Creation.map_call, setUp_map,
      parameters_map h, assign]
  | colorAnimation q f | scalarAnimation q f | vector2Animation q f | vector3Animation q f =>
    exact hfull _ (frames_map h s r id q f (fun _ => rfl) fun _ => rfl)
  | pathAnimation q f => exact hfull _ (frames_map h s r φ q f (ask_map h r) fun _ => rfl)

theorem canvasFactory_map (geometry : CanvasGeometry (Fin n)) :
    canvasFactory p' (φ r) (geometry.map φ) =
      (canvasFactory p r geometry).map (Request.map φ) := by
  cases geometry with
  | combination a b matrix mode =>
    simp only [CanvasGeometry.map, canvasFactory, h.request]
    rfl
  | _ => rfl

end Construction

namespace Plan.Embeds

variable {p : Plan n} {p' : Plan k} (h : p.Embeds p' φ)

include h

theorem factory (s : Settings) (r : Fin n) :
    p'.factory s (φ r) = (p.factory s r).map (Request.map φ) := by
  rw [Plan.factory, Plan.factory, h.merge.object_eq]
  cases p.merge.object r with
  | composition base variant => exact Construction.variantFactory_map h s r base variant
  | path description source =>
    simp only [Object.map, h.request]
    rfl
  | canvas description geometry => exact Construction.canvasFactory_map h r geometry

end Plan.Embeds

/-! ## Comments -/

namespace Merge

theorem chain_succ (m : Merge n) (fuel : Nat) {visited : List (Fin n)} (hvisited : visited.Nodup)
    (hfuel : n < visited.length + fuel) (i : Fin n) :
    m.chain (fuel + 1) visited i = m.chain fuel visited i := by
  induction fuel generalizing visited i with
  | zero =>
    have hlength := hvisited.length_le_card
    rw [Fintype.card_fin] at hlength
    omega
  | succ fuel ih =>
    rw [chain, chain]
    cases m.soleReferencer? i with
    | none => rfl
    | some parent =>
      by_cases hparent : visited.contains parent = true
      · simp only [hparent, if_true]
      · have hnodup : (parent :: visited).Nodup :=
          List.nodup_cons.mpr ⟨by simpa using hparent, hvisited⟩
        simp only [hparent, ih hnodup (by simp only [List.length_cons]; omega) parent]

theorem chain_of_le (m : Merge n) {fuel : Nat} (hfuel : n ≤ fuel) (i : Fin n) :
    m.chain fuel [i] i = m.chain n [i] i := by
  induction fuel, hfuel using Nat.le_induction with
  | base => rfl
  | succ fuel hfuel ih =>
    rw [← ih]
    exact m.chain_succ fuel (List.nodup_singleton i)
      (by simp only [List.length_singleton]; omega) i

namespace Embeds

variable {m : Merge n} {m' : Merge k} (h : m.Embeds m' φ)

include h

theorem soleReferencer? (i : Fin n) : m'.soleReferencer? (φ i) = (m.soleReferencer? i).map φ := by
  rw [Merge.soleReferencer?, Merge.soleReferencer?, h.inReferences]
  cases m.inReferences i with
  | nil => rfl
  | cons parent rest =>
    have hall : (rest.map φ).all (· == φ parent) = rest.all (· == parent) := by
      rw [List.all_map]
      congr 1
      funext j
      exact beq_of_injective h.injective j parent
    simp only [List.map_cons, hall]
    split <;> rfl

theorem chain (fuel : Nat) (visited : List (Fin n)) (i : Fin n) :
    m'.chain fuel (visited.map φ) (φ i) = m.chain fuel visited i := by
  induction fuel generalizing visited i with
  | zero => rfl
  | succ fuel ih =>
    rw [Merge.chain, Merge.chain, h.soleReferencer?]
    cases m.soleReferencer? i with
    | none => rfl
    | some parent =>
      have hrest := ih (parent :: visited) parent
      rw [List.map_cons] at hrest
      simp only [Option.map_some, contains_map h.injective, h.object_eq,
        Object.description_map, hrest]

theorem comment (i : Fin n) : m'.comment (φ i) = m.comment i := by
  have hle : n ≤ k := by simpa using Fintype.card_le_of_injective φ h.injective
  have hancestors : m'.ancestors (φ i) = m.ancestors i := by
    rw [ancestors, ancestors, ← m.chain_of_le hle i, ← h.chain k [i] i]
    rfl
  rw [Merge.comment, Merge.comment, hancestors, h.object_eq, Object.description_map]

end Embeds

end Merge

/-! ## Methods -/

namespace Plan.Embeds

variable {p : Plan n} {p' : Plan k} (h : p.Embeds p' φ)

include h

theorem method (o : Options) (r : Fin n) : p'.method o (φ r) = p.method o r := by
  have hanswer : (fun request => p'.answer (Request.map φ request)) = p.answer := by
    funext request calls
    simp only [Plan.answer, Request.map, h.sites]
  rw [Plan.method, Plan.method, h.factory, Factory.traverse_of_map, hanswer, h.sites,
    h.merge.comment]

theorem methods (o : Options) : p'.methods (p'.method o) = p.methods (p.method o) := by
  have hmethod : p'.method o ∘ φ = p.method o := funext (h.method o)
  rw [Plan.methods, Plan.methods, h.withFactory, List.mapM_map, hmethod]

theorem sourceFile (o : Options) (methods : List Code) :
    p'.sourceFile o methods = p.sourceFile o methods := by
  have hkind : p'.withFactory.any (fun r => (p'.merge.object r).kind == "CanvasGeometry") =
      p.withFactory.any fun r => (p.merge.object r).kind == "CanvasGeometry" := by
    rw [h.withFactory, List.any_map]
    congr 1
    funext r
    rw [Function.comp_apply, h.merge.object_eq, Object.kind_map]
  have hstored : p'.withField.map (fun r => p'.sites[r]) = p.withField.map fun r => p.sites[r] := by
    rw [h.withField, List.map_map]
    exact List.map_congr_left fun r _ => h.sites r
  rw [Plan.sourceFile, Plan.sourceFile, h.root, h.sites, h.merge.object_eq, Object.values_map,
    hkind, hstored]

theorem agree_write (o : Options) :
    Agree (fun c c' => c'.code = c.code) (p.write o (p.method o)) (p'.write o (p'.method o)) := by
  simp only [Plan.write, h.root, h.merge.object_eq, Object.isVisual_map, Object.typeName_map,
    h.methods, h.calls]
  split
  · cases (p.methods (p.method o)).run p.calls with
    | error fault => exact .error fault
    | ok result => exact .ok (by rw [h.sourceFile])
  · exact .error _

end Plan.Embeds

theorem agree_compile {heap : Heap n} {heap' : Heap k} (h : heap.Embeds heap' φ) (root : Fin n)
    (o : Options) :
    Agree (fun c c' => c'.code = c.code) (compile heap root o) (compile heap' (φ root) o) := by
  have hmerge := Merge.embeds_ofGraph (Graph.embeds_ofRoot h root) o.setComments
  exact (Plan.agree_ofMerge hmerge o.dialect.newOperator).bind fun p p' hp => hp.agree_write o

end SceneCompiler
