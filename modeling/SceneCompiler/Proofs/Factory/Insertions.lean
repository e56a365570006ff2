import SceneCompiler.CSharp.Method
import SceneCompiler.Proofs.Factory.Renaming
import SceneCompiler.Proofs.Factory.Requests

/-!
# What a factory inserts into property sets

A factory opens the property set of its object, if there is anything to insert, and inserts the values of
the object.  It inserts nothing else: neither the values of the controllers that it fetches, nor those of
an animation that it builds on the reusable one.
-/

namespace SceneCompiler

variable {ρ σ : Type} {n : Nat}

/-- A property set is that of an object, or that of a controller, which is known by the object whose
factory fetches it and its position among the controllers fetched there. -/
inductive PropertySet (n : Nat) where
  | object (i : Fin n)
  | controller (r : Fin n) (position : Nat)
deriving DecidableEq, Repr

def PropertyValues.lines (d : CSharp.Dialect) (values : PropertyValues) : List Code :=
  (values.scalars.map fun (name, value) =>
    CSharp.callLine d "propertySet" "InsertScalar" [Text.quote name, CSharp.float value]) ++
  (values.vector2s.map fun (name, value) =>
    CSharp.callLine d "propertySet" "InsertVector2" [Text.quote name, CSharp.vector2 value])

theorem PropertyValues.lines_eq_nil_iff (d : CSharp.Dialect) (values : PropertyValues) :
    values.lines d = [] ↔ values.isEmpty = true := by
  simp [lines, isEmpty]

def Statement.inserts : Statement ρ → Bool
  | .insertScalar _ _ => true
  | .insertVector2 _ _ => true
  | _ => false

/-- The lines that statements of a factory insert values with, each with the property set at hand. -/
def insertions (d : CSharp.Dialect) (r : Fin n) : (atHand : Option (PropertySet n)) →
    List (Statement Access) → List (Option (PropertySet n) × Code)
  | _, [] => []
  | _, .openProperties :: rest => insertions d r (some (.object r)) rest
  | atHand, s :: rest =>
    (if s.inserts then [(atHand, CSharp.statement d s)] else []) ++ insertions d r atHand rest

/-! ## Statements that leave property sets alone -/

def Statement.usesProperties : Statement ρ → Bool
  | .openProperties => true
  | s => s.inserts

theorem insertions_append_of_not_uses (d : CSharp.Dialect) (r : Fin n)
    (atHand : Option (PropertySet n)) {ss : List (Statement Access)}
    (h : ss.any Statement.usesProperties = false) (ts : List (Statement Access)) :
    insertions d r atHand (ss ++ ts) = insertions d r atHand ts := by
  induction ss with
  | nil => rfl
  | cons s ss ih =>
    rw [List.any_cons, Bool.or_eq_false_iff] at h
    cases s with
    | openProperties | insertScalar | insertVector2 => cases h.1
    | _ => exact ih h.2

theorem insertions_of_not_uses (d : CSharp.Dialect) (r : Fin n) (atHand : Option (PropertySet n))
    {ss : List (Statement Access)} (h : ss.any Statement.usesProperties = false) :
    insertions d r atHand ss = [] := by
  rw [← List.append_nil ss, insertions_append_of_not_uses d r atHand h]
  rfl

theorem uses_map (f : ρ → σ) (ss : List (Statement ρ)) :
    (ss.map (Statement.map f)).any Statement.usesProperties = ss.any Statement.usesProperties := by
  rw [List.any_map]
  congr 1
  funext s
  cases s <;> rfl

theorem insertions_map_map (d : CSharp.Dialect) (r : Fin n) (atHand : Option (PropertySet n))
    (f : ρ → Access) (g : ρ → σ) (h : σ → Access) (ss : List (Statement ρ)) :
    insertions d r atHand (ss.map (Statement.map f)) =
      insertions d r atHand ((ss.map (Statement.map g)).map (Statement.map h)) := by
  induction ss generalizing atHand with
  | nil => rfl
  | cons s ss ih =>
    cases s with
    | insertScalar name value => exact congrArg (List.cons _) (ih _)
    | insertVector2 name value => exact congrArg (List.cons _) (ih _)
    | _ => exact ih _

theorem insertions_values (d : CSharp.Dialect) (r : Fin n) (atHand : Option (PropertySet n))
    (scalars : List (String × Number)) (vector2s : List (String × Vector2))
    {rest : List (Statement Access)} (h : rest.any Statement.usesProperties = false) :
    insertions d r atHand
        ((scalars.map fun (name, value) => .insertScalar name value) ++
          (vector2s.map fun (name, value) => .insertVector2 name value) ++ rest) =
      (PropertyValues.lines d ⟨scalars, vector2s⟩).map fun line => (atHand, line) := by
  have hvectors : insertions d r atHand
      ((vector2s.map fun (name, value) => .insertVector2 name value) ++ rest) =
      (PropertyValues.lines d ⟨[], vector2s⟩).map fun line => (atHand, line) := by
    induction vector2s with
    | nil => exact insertions_of_not_uses d r atHand h
    | cons entry vector2s ih => exact congrArg (List.cons _) ih
  rw [List.append_assoc]
  induction scalars with
  | nil => exact hvectors
  | cons entry scalars ih => exact congrArg (List.cons _) ih

/-! ## The statements of a factory -/

namespace Construction

section

variable {property : String}

@[simp] theorem uses_assign (value : Operand ρ) :
    (assign property value).usesProperties = false := rfl

@[simp] theorem uses_assignSome {α : Type} (value : α → Operand ρ) (a : Option α) :
    (assignSome property value a).any Statement.usesProperties = false := by
  cases a <;> rfl

@[simp] theorem uses_assignIf (differs : Bool) (value : Operand ρ) :
    (assignIf differs property value).any Statement.usesProperties = false := by
  cases differs <;> rfl

end

@[simp] theorem uses_fill {α : Type} (list : ItemList) (item : α → List (Statement ρ))
    (items : List α) :
    (fill list item items).any Statement.usesProperties =
      items.any fun a => (item a).any Statement.usesProperties := by
  cases items with
  | nil => rfl
  | cons a items => simp [fill, Statement.usesProperties, Statement.inserts, List.any_flatMap]

variable (p : Plan n) (s : Settings) (r : Fin n)

@[simp] theorem uses_parameters (q : Parameters (Fin n)) :
    (parameters p r q).any Statement.usesProperties = false := by
  simp [parameters, Statement.usesProperties, Statement.inserts, List.any_map]

theorem uses_frames {α : Type} (q : Parameters (Fin n)) (f : Frames (Fin n) α)
    (value : α → Operand (Request n)) (describe : α → List String) :
    (frames p s r q f value describe).any Statement.usesProperties = false := by
  have hframes : (f.keyFrames.flatMap (keyFrame p r value describe)).any
      Statement.usesProperties = false := by
    rw [List.any_flatMap, List.any_eq_false]
    intro frame _
    unfold keyFrame
    cases frame.value <;> simp [Statement.usesProperties, Statement.inserts]
  simp [frames, hframes]

end Construction

def Statement.animates : Statement ρ → Bool
  | .assign .reusable _ _ => true
  | .setParameter .reusable _ _ => true
  | .clearParameters => true
  | .startAnimation _ _ _ => true
  | .fetchController _ _ _ _ => true
  | .pauseController _ => true
  | _ => false

/-- A property of all statements that a start of an animation may need. -/
structure CoversStarts (P : Statement ρ → Prop) : Prop where
  clear : P .clearParameters
  assign : ∀ property text, P (.assign .reusable property (.text text))
  own : ∀ name, P (.setParameter .reusable name (.holder .result))
  asked : ∀ name r, P (.setParameter .reusable name (.object r))
  reused : ∀ target property, P (.startAnimation target property (.holder .reusable))
  start : ∀ target property r, P (.startAnimation target property (.object r))
  fetch : ∀ declares depth target property, P (.fetchController declares depth target property)
  pause : ∀ depth, P (.pauseController depth)

theorem coversStarts_animates : CoversStarts fun s : Statement ρ => s.animates = true :=
  ⟨rfl, fun _ _ => rfl, fun _ => rfl, fun _ _ => rfl, fun _ _ => rfl, fun _ _ _ => rfl,
    fun _ _ _ _ => rfl, fun _ => rfl⟩

theorem mem_declareControllers {declared : List Nat} {ss : List (Statement ρ)} {s : Statement ρ}
    (h : s ∈ declareControllers declared ss) :
    s ∈ ss ∨ ∃ declares depth target property,
      s = .fetchController declares depth target property := by
  fun_induction declareControllers declared ss with
  | case1 => cases h
  | case2 declared _ depth target property rest ih =>
    rcases List.mem_cons.mp h with rfl | h
    · exact .inr ⟨_, depth, target, property, rfl⟩
    · exact (ih h).imp_left (List.mem_cons_of_mem _)
  | case3 declared first rest _ ih =>
    rcases List.mem_cons.mp h with rfl | h
    · exact .inl List.mem_cons_self
    · exact (ih h).imp_left (List.mem_cons_of_mem _)

namespace CoversStarts

variable {p : Plan n} {P : Statement (Request n) → Prop}

theorem startTransient (h : CoversStarts P) (owner : Option (Fin n)) (target : Target)
    (property : String) (animation : Fin n) (q : Parameters (Fin n)) (expression : String) :
    ∀ s ∈ p.startTransient owner target property animation q expression, P s := by
  have hparameter (name : String) (object : Fin n) (request : Request n) :
      P (.setParameter .reusable name
        (if owner = some object then .holder .result else .object request)) := by
    split
    · exact h.own name
    · exact h.asked name request
  simp only [Plan.startTransient, List.forall_mem_append, List.forall_mem_map,
    List.forall_mem_cons, List.mem_nil_iff, false_implies, implies_true, and_true]
  exact ⟨⟨⟨⟨h.clear, h.assign _ _⟩, fun text _ => h.assign _ text⟩,
    fun parameter _ => hparameter _ _ _⟩, h.reused target property⟩

theorem startOne (h : CoversStarts P) (caller : Fin n) (owner : Option (Fin n)) (target : Target)
    (property : String) (animation : Fin n) :
    ∀ s ∈ p.start caller owner target property animation, P s := by
  have hplain := List.forall_mem_singleton.mpr (h.start target property (p.request caller animation))
  unfold Plan.start
  split
  · split
    · exact hplain
    · exact h.startTransient owner target property animation _ _
  · exact hplain

mutual
theorem bind (h : CoversStarts P) (caller : Fin n) (owner : Option (Fin n)) (target : Target)
    (depth : Nat) (a : Animator (Fin n)) : ∀ s ∈ p.bind caller owner target depth a, P s := by
  cases a with
  | plain property animation =>
    rw [Plan.bind]
    exact h.startOne caller owner target property animation
  | controlled property animation values onProperties onController =>
    simp only [Plan.bind, List.forall_mem_append, List.forall_mem_cons, List.mem_nil_iff,
      false_implies, implies_true, and_true]
    exact ⟨⟨⟨h.startOne caller owner target property animation,
      h.fetch false depth target property, h.pause depth⟩,
      bindAll h _ _ _ _ onProperties⟩, bindAll h _ _ _ _ onController⟩
theorem bindAll (h : CoversStarts P) (caller : Fin n) (owner : Option (Fin n)) (target : Target)
    (depth : Nat) (as : List (Animator (Fin n))) :
    ∀ s ∈ p.bindAll caller owner target depth as, P s := by
  cases as with
  | nil =>
    rw [Plan.bindAll]
    exact List.forall_mem_nil P
  | cons a as =>
    rw [Plan.bindAll, List.forall_mem_append]
    exact ⟨bind h caller owner target depth a, bindAll h caller owner target depth as⟩
end

theorem startAnimations (h : CoversStarts P) (r : Fin n) (base : Base (Fin n)) :
    ∀ s ∈ p.startAnimations r base, P s := by
  intro s hs
  rcases mem_declareControllers hs with hs | ⟨declares, depth, target, property, rfl⟩
  · rcases List.mem_append.mp hs with hs | hs
    · exact h.bindAll _ _ _ _ _ s hs
    · exact h.bindAll _ _ _ _ _ s hs
  · exact h.fetch declares depth target property

end CoversStarts

namespace Plan

variable (p : Plan n)

theorem uses_startAnimations (r : Fin n) (base : Base (Fin n)) :
    (p.startAnimations r base).any Statement.usesProperties = false := by
  rw [List.any_eq_false]
  intro s hs
  have hanimates := coversStarts_animates.startAnimations r base s hs
  cases s with
  | openProperties | insertScalar | insertVector2 => cases hanimates
  | _ => exact Bool.false_ne_true

end Plan

namespace Construction

variable (p : Plan n) (s : Settings) (r : Fin n)

theorem exists_insertValues (base : Base (Fin n)) (variant : Variant (Fin n)) :
    ∃ front back, (variantFactory p s r base variant).statements =
        front ++ (insertValues base.values ++ back) ∧
      front.any Statement.usesProperties = false ∧ back.any Statement.usesProperties = false := by
  have hcomment : (assignSome "Comment" (Operand.text (ρ := Request n)) (comment? s base)).any
      Statement.usesProperties = false := by simp
  have hanimations := p.uses_startAnimations r base
  cases variant <;>
    simp only [variantFactory, variantFactory.full, statements_bareOr, setUp, List.append_assoc]
  case linearEasing | cubicBezierEasing =>
    exact ⟨_, [], by rw [List.append_nil], hcomment, rfl⟩
  all_goals
    refine ⟨_, _, rfl, hcomment, ?_⟩
  all_goals
    simp [visual, describedShapes, insetClip, placement, sprite, strokeCap, trim, stepEasing,
      assign, assignNumber, assignInteger, assignVector2, assignFlag, hanimations, uses_frames,
      Statement.usesProperties, Statement.inserts, List.any_map]

end Construction

theorem Plan.insertions_factory (p : Plan n) (s : Settings) (r : Fin n) (d : CSharp.Dialect)
    (f : Request n → Access) :
    insertions d r none ((p.factory s r).statements.map (Statement.map f)) =
      ((p.merge.object r).values.lines d).map fun line => (some (.object r), line) := by
  unfold factory
  cases p.merge.object r with
  | composition base variant =>
    obtain ⟨front, back, hstatements, hfront, hback⟩ :=
      Construction.exists_insertValues p s r base variant
    simp only [hstatements, List.map_append]
    rw [insertions_append_of_not_uses d r none (by rwa [uses_map])]
    change insertions d r none _ = (base.values.lines d).map _
    cases hempty : base.values.isEmpty with
    | true =>
      have hvalues : base.values.lines d = [] := (base.values.lines_eq_nil_iff d).mpr hempty
      simp only [Construction.insertValues, hempty, if_true, hvalues, List.map_nil,
        List.nil_append]
      exact insertions_of_not_uses d r none (by rwa [uses_map])
    | false =>
      simp only [Construction.insertValues, hempty, Bool.false_eq_true, if_false,
        List.map_cons, List.map_append, List.map_map, List.cons_append,
        Statement.map_openProperties, insertions]
      exact insertions_values d r _ _ _ (by rwa [uses_map])
  | path description source => rfl
  | canvas description geometry => cases geometry <;> rfl

end SceneCompiler
