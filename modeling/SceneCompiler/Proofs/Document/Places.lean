import Mathlib.Tactic.MkIffOfInductiveProp
import SceneCompiler.Document.Linker
import SceneCompiler.Proofs.Model.Contents

/-!
# Places of mentions

Every id that a record mentions stands at a place: in a field of the record, or in one of its
collections, where the animators of controllers nest.  Two ways of looking up mentions that are
related mention by mention are related as a whole.  One way answers at once and lists the mentions,
so what every other looks up is found out for that one.
-/

namespace SceneCompiler

/-! ## Fields and collections -/

/-- The mentions in the fields of a record at a path that have a single reference. -/
@[mk_iff]
inductive Object.FieldMention (path : String) : Object String → Mention → Prop
  | clip {base : Base String} {v : Visual String} {id : String} :
      v.clip = some id →
      FieldMention path (.composition base (.containerVisual v)) ⟨path ++ ".clip", id, .insetClip⟩
  | shapeClip {base : Base String} {v : Visual String} {shapes : List String} {box : Option String}
      {id : String} :
      v.clip = some id →
      FieldMention path (.composition base (.shapeVisual v shapes box))
        ⟨path ++ ".clip", id, .insetClip⟩
  | viewBox {base : Base String} {v : Visual String} {shapes : List String} {id : String} :
      FieldMention path (.composition base (.shapeVisual v shapes (some id)))
        ⟨path ++ ".viewBox", id, .viewBox⟩
  | fillBrush {base : Base String} {p : Placement} {s : Sprite String} {id : String} :
      s.fillBrush = some id →
      FieldMention path (.composition base (.spriteShape p s)) ⟨path ++ ".fillBrush", id, .brush⟩
  | geometry {base : Base String} {p : Placement} {s : Sprite String} {id : String} :
      s.geometry = some id →
      FieldMention path (.composition base (.spriteShape p s)) ⟨path ++ ".geometry", id, .geometry⟩
  | strokeBrush {base : Base String} {p : Placement} {s : Sprite String} {id : String} :
      s.strokeBrush = some id →
      FieldMention path (.composition base (.spriteShape p s)) ⟨path ++ ".strokeBrush", id, .brush⟩
  | path {base : Base String} {t : Trim} {id : String} :
      FieldMention path (.composition base (.pathGeometry t id))
        ⟨path ++ ".path", id, .compositionPath⟩
  | source {description : Description} {id : String} :
      FieldMention path (.path description id) ⟨path ++ ".source", id, .canvasGeometry⟩
  | first {description : Description} {a b : String} {matrix : Matrix3x2} {mode : CombineMode} :
      FieldMention path (.canvas description (.combination a b matrix mode))
        ⟨path ++ ".a", a, .canvasGeometry⟩
  | second {description : Description} {a b : String} {matrix : Matrix3x2} {mode : CombineMode} :
      FieldMention path (.canvas description (.combination a b matrix mode))
        ⟨path ++ ".b", b, .canvasGeometry⟩

@[mk_iff]
inductive Animator.Mentions (entered : String → Prop) : String → Animator String → Mention → Prop
  | plain {path property id : String} :
      Mentions entered path (.plain property id) ⟨path ++ ".animation", id, .animation⟩
  | controlled {path property id : String} {values : PropertyValues}
      {onProperties onController : List (Animator String)} :
      Mentions entered path (.controlled property id values onProperties onController)
        ⟨path ++ ".animation", id, .animation⟩
  | onProperties {path property id : String} {values : PropertyValues}
      {onProperties onController : List (Animator String)} {i : Nat} {a : Animator String}
      {m : Mention} :
      entered id → onProperties[i]? = some a →
      Mentions entered (path ++ ".controller.properties.animators" ++ "." ++ toString i) a m →
      Mentions entered path (.controlled property id values onProperties onController) m
  | onController {path property id : String} {values : PropertyValues}
      {onProperties onController : List (Animator String)} {i : Nat} {a : Animator String}
      {m : Mention} :
      entered id → onController[i]? = some a →
      Mentions entered (path ++ ".controller.animators" ++ "." ++ toString i) a m →
      Mentions entered path (.controlled property id values onProperties onController) m

@[mk_iff]
inductive Content.Mentions (entered : String → Prop) (path : String) :
    Content String → Mention → Prop
  | onProperties {values : PropertyValues} {onProperties onObject : List (Animator String)}
      {i : Nat} {a : Animator String} {m : Mention} :
      onProperties[i]? = some a →
      a.Mentions entered (path ++ ".properties.animators" ++ "." ++ toString i) m →
      Mentions entered path (.owned values onProperties onObject) m
  | onObject {values : PropertyValues} {onProperties onObject : List (Animator String)} {i : Nat}
      {a : Animator String} {m : Mention} :
      onObject[i]? = some a → a.Mentions entered (path ++ ".animators" ++ "." ++ toString i) m →
      Mentions entered path (.owned values onProperties onObject) m
  | child {ids : List String} {i : Nat} {id : String} :
      ids[i]? = some id →
      Mentions entered path (.children ids)
        ⟨path ++ ".children" ++ "." ++ toString i, id, .visual⟩
  | shape {ids : List String} {i : Nat} {id : String} :
      ids[i]? = some id →
      Mentions entered path (.shapes ids) ⟨path ++ ".shapes" ++ "." ++ toString i, id, .shape⟩
  | parameter {references : List (String × String)} {name id : String} :
      (name, id) ∈ references →
      Mentions entered path (.parameters references)
        ⟨path ++ ".referenceParameters." ++ name, id, .compositionObject⟩
  | colorEasing {frames : List (KeyFrame String Color)} {i : Nat} {frame : KeyFrame String Color} :
      frames[i]? = some frame →
      Mentions entered path (.colorFrames frames)
        ⟨framePlace path i "easing", frame.easing, .easing⟩
  | scalarEasing {frames : List (KeyFrame String Number)} {i : Nat}
      {frame : KeyFrame String Number} :
      frames[i]? = some frame →
      Mentions entered path (.scalarFrames frames)
        ⟨framePlace path i "easing", frame.easing, .easing⟩
  | vector2Easing {frames : List (KeyFrame String Vector2)} {i : Nat}
      {frame : KeyFrame String Vector2} :
      frames[i]? = some frame →
      Mentions entered path (.vector2Frames frames)
        ⟨framePlace path i "easing", frame.easing, .easing⟩
  | vector3Easing {frames : List (KeyFrame String Vector3)} {i : Nat}
      {frame : KeyFrame String Vector3} :
      frames[i]? = some frame →
      Mentions entered path (.vector3Frames frames)
        ⟨framePlace path i "easing", frame.easing, .easing⟩
  | pathValue {frames : List (KeyFrame String String)} {i : Nat} {frame : KeyFrame String String}
      {id : String} :
      frames[i]? = some frame → frame.value = .value id →
      Mentions entered path (.pathFrames frames) ⟨framePlace path i "value", id, .compositionPath⟩
  | pathEasing {frames : List (KeyFrame String String)} {i : Nat} {frame : KeyFrame String String} :
      frames[i]? = some frame →
      Mentions entered path (.pathFrames frames) ⟨framePlace path i "easing", frame.easing, .easing⟩

/-! ## Two runs of one operation -/

/-- A relation between the runs of two monads that is kept by sequencing. -/
structure RunRelation (m m' : Type → Type) [Monad m] [Monad m'] where
  Rel : ∀ {α : Type}, m α → m' α → Prop
  done : ∀ {α : Type} (a : α), Rel (pure a) (pure a)
  next : ∀ {α β : Type} {x : m α} {y : m' α} {f : α → m β} {g : α → m' β},
    Rel x y → (∀ a, Rel (f a) (g a)) → Rel (x >>= f) (y >>= g)

namespace RunRelation

variable {m m' : Type → Type} [Monad m] [Monad m'] (R : RunRelation m m') {σ : Type}
  {find : Mention → m (Option σ)} {find' : Mention → m' (Option σ)}

theorem map {α β : Type} {x : m α} {y : m' α} (h : R.Rel x y) (f : α → β) :
    R.Rel (do return f (← x)) (do return f (← y)) :=
  R.next h fun a => R.done (f a)

theorem create {path : String} {o : Object String}
    (hfind : ∀ mention, o.FieldMention path mention → R.Rel (find mention) (find' mention)) :
    R.Rel (o.create find path) (o.create find' path) := by
  have hoptional (place : String) (demand : Demand) (id : Option String)
      (h : ∀ r, id = some r → o.FieldMention path ⟨place, r, demand⟩) :
      R.Rel (findOptional find place demand id) (findOptional find' place demand id) := by
    cases id with
    | none => exact R.done none
    | some r => exact hfind _ (h r rfl)
  cases o with
  | composition base variant =>
    refine R.map ?_ _
    cases variant with
    | containerVisual v => exact R.map (hoptional _ _ _ fun r hr => .clip hr) _
    | shapeVisual v shapes box =>
      exact R.next (hoptional _ _ _ fun r hr => .shapeClip hr) fun clip =>
        R.map (hoptional _ _ _ fun r hr => hr ▸ .viewBox) _
    | spriteShape p s =>
      exact R.next (hoptional _ _ _ fun r hr => .fillBrush hr) fun fill =>
        R.next (hoptional _ _ _ fun r hr => .geometry hr) fun geometry =>
          R.map (hoptional _ _ _ fun r hr => .strokeBrush hr) _
    | pathGeometry t id => exact R.map (hfind _ .path) _
    | _ => exact R.done _
  | path description id => exact R.map (hfind _ .source) _
  | canvas description geometry =>
    refine R.map ?_ _
    cases geometry with
    | combination a b matrix mode =>
      exact R.next (hfind _ .first) fun found => R.map (hfind _ .second) _
    | _ => exact R.done _

theorem collect {α β : Type} {item : Nat → α → m (Option β)} {item' : Nat → α → m' (Option β)}
    (h : ∀ i a, R.Rel (item i a) (item' i a)) (as : List α) (i : Nat) :
    R.Rel (SceneCompiler.collect item i as) (SceneCompiler.collect item' i as) := by
  induction as generalizing i with
  | nil => exact R.done []
  | cons a as ih => exact R.next (h i a) fun b => R.map (ih (i + 1)) _

mutual
theorem animator (hfind : ∀ mention, R.Rel (find mention) (find' mention)) (path : String)
    (a : Animator String) :
    R.Rel (a.resolve find path) (a.resolve find' path) := by
  cases a with
  | plain property id => exact R.map (hfind _) _
  | controlled property id values onProperties onController =>
    rw [Animator.resolve, Animator.resolve]
    refine R.next (hfind _) fun found => ?_
    cases found with
    | none => exact R.done none
    | some animation =>
      exact R.next (animators hfind _ 0 onProperties) fun ps =>
        R.map (animators hfind _ 0 onController) _
theorem animators (hfind : ∀ mention, R.Rel (find mention) (find' mention)) (path : String) (i : Nat)
    (as : List (Animator String)) :
    R.Rel (resolveAnimators find path i as) (resolveAnimators find' path i as) := by
  cases as with
  | nil => exact R.done []
  | cons a as => exact R.next (animator hfind _ a) fun b => R.map (animators hfind path (i + 1) as) _
end

theorem content (hfind : ∀ mention, R.Rel (find mention) (find' mention)) (path : String)
    (c : Content String) :
    R.Rel (c.resolve find path) (c.resolve find' path) := by
  have hframes {α : Type} (frames : List (KeyFrame String α)) :
      R.Rel (resolveFrames find path frames) (resolveFrames find' path frames) :=
    R.collect (fun i frame => R.map (hfind _) _) frames 0
  have hvalue (i : Nat) (value : FrameValue String) :
      R.Rel (resolvePath find path i value) (resolvePath find' path i value) := by
    cases value with
    | value id => exact R.map (hfind _) _
    | expression text => exact R.done _
  cases c with
  | owned values onProperties onObject =>
    exact R.next (R.animators hfind _ 0 onProperties) fun ps =>
      R.map (R.animators hfind _ 0 onObject) _
  | children ids => exact R.map (R.collect (fun i id => hfind _) ids 0) _
  | shapes ids => exact R.map (R.collect (fun i id => hfind _) ids 0) _
  | parameters entries => exact R.map (R.collect (fun i r => R.map (hfind _) _) entries 0) _
  | colorFrames frames => exact R.map (hframes frames) _
  | scalarFrames frames => exact R.map (hframes frames) _
  | vector2Frames frames => exact R.map (hframes frames) _
  | vector3Frames frames => exact R.map (hframes frames) _
  | pathFrames frames =>
    refine R.map (R.collect (fun i frame => ?_) frames 0) _
    exact R.next (hvalue i frame.value) fun value => R.map (hfind _) _

end RunRelation

theorem exists_getElem?_cons {α : Type} (p : Nat → α → Prop) (i : Nat) (a : α) (as : List α) :
    (∃ j b, (a :: as)[j]? = some b ∧ p (i + j) b) ↔
      p i a ∨ ∃ j b, as[j]? = some b ∧ p (i + 1 + j) b := by
  constructor
  · rintro ⟨j, b, hj, hp⟩
    cases j with
    | zero =>
      cases hj
      exact .inl hp
    | succ j => exact .inr ⟨j, b, hj, by rwa [Nat.add_assoc, Nat.add_comm 1 j]⟩
  · rintro (hp | ⟨j, b, hj, hp⟩)
    · exact ⟨0, a, rfl, hp⟩
    · exact ⟨j + 1, b, hj, by rwa [Nat.add_comm j 1, ← Nat.add_assoc]⟩

/-! ## Looking at mentions -/

/-- Runs in which a mention is answered at once, with the mentions that they look at. -/
def Looking (σ α : Type) : Type :=
  (Demand × String → Option σ) → List Mention × α

namespace Looking

variable {σ α β : Type}

instance : Monad (Looking σ) where
  pure a := fun _ => ([], a)
  bind x f := fun answers =>
    ((x answers).1 ++ (f (x answers).2 answers).1, (f (x answers).2 answers).2)

def look (mention : Mention) : Looking σ (Option σ) :=
  fun answers => ([mention], answers (mention.demand, mention.id))

def complete (A : String → σ) (x : Looking σ α) : List (Demand × String) × α :=
  ((x fun part => some (A part.2)).1.map fun m => (m.demand, m.id),
    (x fun part => some (A part.2)).2)

theorem pure_apply (a : α) (answers : Demand × String → Option σ) :
    (pure a : Looking σ α) answers = ([], a) :=
  rfl

theorem bind_apply (x : Looking σ α) (f : α → Looking σ β) (answers : Demand × String → Option σ) :
    (x >>= f) answers =
      ((x answers).1 ++ (f (x answers).2 answers).1, (f (x answers).2 answers).2) :=
  rfl

theorem look_apply (mention : Mention) (answers : Demand × String → Option σ) :
    look mention answers = ([mention], answers (mention.demand, mention.id)) :=
  rfl

theorem findOptional_apply (path : String) (demand : Demand) (id : Option String)
    (answers : Demand × String → Option σ) :
    findOptional look path demand id answers =
      (id.toList.map fun r => ⟨path, r, demand⟩, id.bind fun r => answers (demand, r)) := by
  cases id <;> rfl

section Complete

variable (A : String → σ)

theorem complete_pure (a : α) : (pure a : Looking σ α).complete A = ([], a) :=
  rfl

theorem complete_bind (x : Looking σ α) (f : α → Looking σ β) :
    (x >>= f).complete A =
      ((x.complete A).1 ++ ((f (x.complete A).2).complete A).1,
        ((f (x.complete A).2).complete A).2) := by
  simp only [complete, bind_apply, List.map_append]

theorem complete_look (mention : Mention) :
    (look mention).complete A = ([(mention.demand, mention.id)], some (A mention.id)) :=
  rfl

theorem complete_findOptional (path : String) (demand : Demand) (id : Option String) :
    (findOptional look path demand id).complete A =
      (id.toList.map fun r => (demand, r), id.map A) := by
  cases id <;> rfl

theorem complete_create (path : String) (o : Object String) :
    (o.create look path).complete A = (o.shell.mentions, some (o.shell.map A)) := by
  cases o with
  | composition base variant =>
    cases variant <;>
      simp [Object.create, Variant.create, complete_bind, complete_pure, complete_look,
        complete_findOptional, Object.shell, Variant.shell, Visual.shell, Object.mentions,
        Object.parts, Variant.parts, Object.animators, Base.animators, animationParts,
        animatorReferences, Object.map, Base.map, Variant.map, Visual.map, Visual.created, Sprite.map,
        Sprite.created, Parameters.map, Parameters.parts, Parameters.targets, Frames.map, Frames.parts,
        Frames.easings, Frames.pathParts, mapAnimators]
  | path description id => rfl
  | canvas description geometry => cases geometry <;> rfl

theorem complete_collect {item : Nat → α → Looking σ (Option β)}
    {parts : α → List (Demand × String)} {value : α → β}
    (h : ∀ i a, (item i a).complete A = (parts a, some (value a))) (as : List α) (i : Nat) :
    (collect item i as).complete A = (as.flatMap parts, as.map value) := by
  induction as generalizing i with
  | nil => rfl
  | cons a as ih => simp [collect, complete_bind, complete_pure, h, ih]

mutual
theorem complete_animator (path : String) (a : Animator String) :
    (a.resolve look path).complete A =
      (a.references.map fun r => (.animation, r), some (a.map A)) := by
  cases a with
  | plain property id => rfl
  | controlled property id values onProperties onController =>
    have hproperties := complete_animators (path ++ ".controller.properties.animators") 0 onProperties
    have hcontroller := complete_animators (path ++ ".controller.animators") 0 onController
    rw [Animator.resolve, complete_bind, complete_look, complete_bind, complete_bind, hproperties,
      hcontroller]
    simp [complete_pure, Animator.references, Animator.map, animationParts]
theorem complete_animators (path : String) (i : Nat) (as : List (Animator String)) :
    (resolveAnimators look path i as).complete A = (animationParts as, mapAnimators A as) := by
  cases as with
  | nil => rfl
  | cons a as =>
    have hfirst := complete_animator (path ++ "." ++ toString i) a
    have hothers := complete_animators path (i + 1) as
    rw [resolveAnimators, complete_bind, complete_bind, hfirst, hothers]
    simp [complete_pure, animationParts, animatorReferences, mapAnimators]
end

theorem complete_frames {α : Type} (path : String) (frames : List (KeyFrame String α)) :
    (resolveFrames look path frames).complete A =
      (frameParts frames, frames.map (KeyFrame.map A id)) := by
  rw [frameParts, List.map_eq_flatMap]
  refine complete_collect A (fun i frame => ?_) frames 0
  simp [complete_bind, complete_pure, complete_look, KeyFrame.map]

theorem complete_path (path : String) (i : Nat) (value : FrameValue String) :
    (resolvePath look path i value).complete A = (pathPart value, some (value.map A)) := by
  cases value <;> rfl

theorem complete_ids (path : String) (demand : Demand) (ids : List String) :
    (resolveIds look path demand ids).complete A =
      (ids.map fun r => (demand, r), ids.map A) := by
  rw [List.map_eq_flatMap]
  exact complete_collect A (fun i id => rfl) ids 0

theorem complete_pathFrames (path : String) (frames : List (KeyFrame String String)) :
    (resolvePathFrames look path frames).complete A =
      (pathFrameParts frames, frames.map (KeyFrame.map A A)) := by
  refine complete_collect A (fun i frame => ?_) frames 0
  simp [complete_bind, complete_pure, complete_look, complete_path, KeyFrame.map]

theorem complete_parameters (path : String) (entries : List (String × String)) :
    (collect (fun _ r => do
      return (← look ⟨path ++ ".referenceParameters." ++ r.1, r.2, .compositionObject⟩).map
        fun target => (r.1, target)) 0 entries : Looking σ (List (String × σ))).complete A =
      (entries.map fun r => (.compositionObject, r.2), entries.map fun r => (r.1, A r.2)) := by
  rw [List.map_eq_flatMap]
  exact complete_collect A (fun i r => rfl) entries 0

theorem complete_content (path : String) (c : Content String) :
    (c.resolve look path).complete A = (c.mentions, c.map A) := by
  cases c <;>
    simp [Content.resolve, complete_bind, complete_pure, complete_animators, complete_ids,
      complete_parameters, complete_frames, complete_pathFrames, Content.mentions, Content.map]

end Complete

/-! ### The places that are looked at -/

section Places

variable (answers : Demand × String → Option σ) {m : Mention}

theorem mem_findOptional {path : String} {demand : Demand} {id : Option String} :
    m ∈ (findOptional look path demand id answers).1 ↔
      ∃ r, id = some r ∧ m = ⟨path, r, demand⟩ := by
  simp [findOptional_apply, eq_comm]

theorem mem_create {path : String} {o : Object String} :
    m ∈ (o.create look path answers).1 ↔ o.FieldMention path m := by
  rw [Object.fieldMention_iff]
  cases o with
  | composition base variant =>
    cases variant <;>
      simp [Object.create, Variant.create, bind_apply, pure_apply, look_apply, mem_findOptional]
  | path description id => simp [Object.create, bind_apply, pure_apply, look_apply]
  | canvas description geometry =>
    cases geometry <;>
      simp [Object.create, CanvasGeometry.create, bind_apply, pure_apply, look_apply]

theorem mem_collect {item : Nat → α → Looking σ (Option β)} (as : List α) (i : Nat) :
    m ∈ (collect item i as answers).1 ↔
      ∃ j a, as[j]? = some a ∧ m ∈ (item (i + j) a answers).1 := by
  induction as generalizing i with
  | nil => simp [collect, pure_apply]
  | cons a as ih =>
    rw [exists_getElem?_cons (fun j a => m ∈ (item j a answers).1), ← ih]
    simp [collect, bind_apply, pure_apply]

mutual
theorem mem_animator {path : String} {a : Animator String} :
    m ∈ (a.resolve look path answers).1 ↔
      a.Mentions (fun id => (answers (.animation, id)).isSome = true) path m := by
  rw [Animator.mentions_iff]
  cases a with
  | plain property id => simp [Animator.resolve, bind_apply, pure_apply, look_apply]
  | controlled property id values onProperties onController =>
    have hproperties :=
      @mem_animators (path ++ ".controller.properties.animators") 0 onProperties
    have hcontroller := @mem_animators (path ++ ".controller.animators") 0 onController
    rw [Animator.resolve, bind_apply, look_apply, List.mem_append, List.mem_singleton]
    cases hfound : answers (.animation, id) with
    | none => simp [pure_apply, hfound]
    | some animation =>
      simp [bind_apply, pure_apply, hproperties, hcontroller, hfound]
theorem mem_animators {path : String} {i : Nat} {as : List (Animator String)} :
    m ∈ (resolveAnimators look path i as answers).1 ↔
      ∃ (j : Nat) (a : Animator String), as[j]? = some a ∧
        a.Mentions (fun id => (answers (.animation, id)).isSome = true)
          (path ++ "." ++ toString (i + j)) m := by
  cases as with
  | nil => simp [resolveAnimators, pure_apply]
  | cons a as =>
    rw [exists_getElem?_cons (fun j (b : Animator String) =>
      b.Mentions (fun id => (answers (.animation, id)).isSome = true) (path ++ "." ++ toString j) m)]
    rw [resolveAnimators, bind_apply, bind_apply, pure_apply, List.append_nil, List.mem_append,
      mem_animator, mem_animators]
end

theorem mem_ids {path : String} {demand : Demand} {ids : List String} :
    m ∈ (resolveIds look path demand ids answers).1 ↔
      ∃ (j : Nat) (r : String), ids[j]? = some r ∧ m = ⟨path ++ "." ++ toString j, r, demand⟩ := by
  simp [resolveIds, mem_collect, look_apply]

theorem mem_frames {α : Type} {path : String} {frames : List (KeyFrame String α)} :
    m ∈ (resolveFrames look path frames answers).1 ↔
      ∃ (j : Nat) (frame : KeyFrame String α), frames[j]? = some frame ∧
        m = ⟨framePlace path j "easing", frame.easing, .easing⟩ := by
  simp [resolveFrames, mem_collect, bind_apply, pure_apply, look_apply]

theorem mem_pathFrames {path : String} {frames : List (KeyFrame String String)} :
    m ∈ (resolvePathFrames look path frames answers).1 ↔
      (∃ (j : Nat) (frame : KeyFrame String String), frames[j]? = some frame ∧
        ∃ r, frame.value = .value r ∧ m = ⟨framePlace path j "value", r, .compositionPath⟩) ∨
      ∃ (j : Nat) (frame : KeyFrame String String), frames[j]? = some frame ∧
        m = ⟨framePlace path j "easing", frame.easing, .easing⟩ := by
  have hvalue (j : Nat) (value : FrameValue String) :
      m ∈ (resolvePath look path j value answers).1 ↔
        ∃ r, value = .value r ∧ m = ⟨framePlace path j "value", r, .compositionPath⟩ := by
    cases value <;> simp [resolvePath, bind_apply, pure_apply, look_apply]
  simp [resolvePathFrames, mem_collect, bind_apply, pure_apply, look_apply, hvalue, and_or_left,
    exists_or]

theorem mem_parameters {path : String} {entries : List (String × String)} :
    m ∈ ((collect (fun _ r => do
      return (← look ⟨path ++ ".referenceParameters." ++ r.1, r.2, .compositionObject⟩).map
        fun target => (r.1, target)) 0 entries : Looking σ (List (String × σ))) answers).1 ↔
      ∃ name id, (name, id) ∈ entries ∧
        m = ⟨path ++ ".referenceParameters." ++ name, id, .compositionObject⟩ := by
  rw [mem_collect]
  simp only [bind_apply, pure_apply, look_apply, List.append_nil, List.mem_singleton, Prod.exists]
  constructor
  · rintro ⟨j, name, id, hj, rfl⟩
    exact ⟨name, id, List.mem_of_getElem? hj, rfl⟩
  · rintro ⟨name, id, hmem, rfl⟩
    obtain ⟨j, hj⟩ := List.mem_iff_getElem?.mp hmem
    exact ⟨j, name, id, hj, rfl⟩

theorem mem_content {path : String} {c : Content String} :
    m ∈ (c.resolve look path answers).1 ↔
      c.Mentions (fun id => (answers (.animation, id)).isSome = true) path m := by
  rw [Content.mentions_iff]
  cases c <;>
    simp [Content.resolve, bind_apply, pure_apply, mem_animators, mem_ids, mem_parameters,
      mem_frames, mem_pathFrames]

end Places

section Created

variable {answers : Demand × String → Option σ} {path : String} {o : Object String}

theorem isSome_create :
    (o.create look path answers).2.isSome = true ↔
      ∀ part ∈ o.parts.take o.arity, (answers part).isSome = true := by
  cases o with
  | composition base variant =>
    cases variant <;>
      simp [Object.create, Variant.create, bind_apply, pure_apply, look_apply, Object.parts,
        Variant.parts, Object.arity, Variant.arity]
  | path description id =>
    simp [Object.create, bind_apply, pure_apply, look_apply, Object.parts, Object.arity]
  | canvas description geometry =>
    cases geometry with
    | combination a b matrix mode =>
      cases ha : answers (.canvasGeometry, a) <;> cases hb : answers (.canvasGeometry, b) <;>
        simp [Object.create, CanvasGeometry.create, bind_apply, pure_apply, look_apply,
          Object.parts, Object.arity, ha, hb]
    | _ => simp [Object.create, CanvasGeometry.create, bind_apply, pure_apply, Object.parts, Object.arity]

theorem admits_create {object : Object σ} (h : (o.create look path answers).2 = some object)
    (d : Demand) : d.admits object = d.admits o := by
  cases o with
  | composition base variant =>
    obtain ⟨created, hcreated, rfl⟩ := Option.map_eq_some_iff.mp h
    have hkind : Demand.ofVariant created = Demand.ofVariant variant := by
      cases variant with
      | pathGeometry t id =>
        obtain ⟨_, _, rfl⟩ := Option.map_eq_some_iff.mp hcreated
        rfl
      | _ =>
        cases hcreated
        rfl
    simp only [Demand.admits, hkind]
  | path description id =>
    obtain ⟨_, _, rfl⟩ := Option.map_eq_some_iff.mp h
    rfl
  | canvas description geometry =>
    obtain ⟨_, _, rfl⟩ := Option.map_eq_some_iff.mp h
    rfl

end Created

end Looking

/-! ## Every mention has a place -/

theorem Object.mem_mentions_shell_iff (path : String) (o : Object String)
    (part : Demand × String) :
    part ∈ o.shell.mentions ↔ ∃ m, o.FieldMention path m ∧ (m.demand, m.id) = part := by
  have hlooked : o.shell.mentions = ((o.create Looking.look path).complete fun _ => ()).1 := by
    rw [Looking.complete_create]
  rw [hlooked]
  simp only [Looking.complete, List.mem_map, Looking.mem_create]

theorem Content.mem_mentions_iff (path : String) (c : Content String) (part : Demand × String) :
    part ∈ c.mentions ↔
      ∃ m, c.Mentions (fun _ => True) path m ∧ (m.demand, m.id) = part := by
  have hlooked : c.mentions = ((c.resolve Looking.look path).complete fun _ => ()).1 := by
    rw [Looking.complete_content]
  rw [hlooked]
  simp only [Looking.complete, List.mem_map, Looking.mem_content, Option.isSome_some]

theorem Object.mem_mentions_iff_place (path : String) (o : Object String)
    (part : Demand × String) :
    part ∈ o.mentions ↔ ∃ m, (o.FieldMention path m ∨
      ∃ c ∈ o.contents, c.Mentions (fun _ => True) path m) ∧ (m.demand, m.id) = part := by
  rw [mem_mentions_iff, mem_mentions_shell_iff path]
  constructor
  · rintro (⟨m, hm, rfl⟩ | ⟨c, hc, hpart⟩)
    · exact ⟨m, .inl hm, rfl⟩
    · obtain ⟨m, hm, rfl⟩ := (c.mem_mentions_iff path part).mp hpart
      exact ⟨m, .inr ⟨c, hc, hm⟩, rfl⟩
  · rintro ⟨m, hm | ⟨c, hc, hm⟩, rfl⟩
    · exact .inl ⟨m, hm, rfl⟩
    · exact .inr ⟨c, hc, (c.mem_mentions_iff path _).mpr ⟨m, hm, rfl⟩⟩

end SceneCompiler
