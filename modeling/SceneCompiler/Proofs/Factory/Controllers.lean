import SceneCompiler.CSharp.Method
import SceneCompiler.Proofs.Factory.Bindings
import SceneCompiler.Proofs.Factory.Renaming
import SceneCompiler.Proofs.Number.Digits
import SceneCompiler.Proofs.Scene.Kinds

/-!
# Controllers of animations

The statements that start the animations of an object are read as straight-line code.  A local
holds the controller that was fetched last at its depth.  The code does the preorder walk of the
animators: each animation is started where it belongs, and its controller is fetched and paused
before the animations on the controller are started.
-/

namespace SceneCompiler

/-! ## Straight-line code -/

/-- What a local holds: the object being built, or the controller of an animation.  Animations are
numbered in the order in which they are started. -/
inductive Entity where
  | object
  | controller (animation : Nat)
deriving DecidableEq, Repr

structure Owner where
  entity : Entity
  onProperties : Bool
deriving DecidableEq, Repr

inductive Argument (ρ : Type) where
  | asked (reference : ρ)
  | held (entity : Entity)
deriving DecidableEq, Repr

/-- What is started: an animation that is asked for, or the reusable one with the expression assigned
last and the parameters set since they were cleared.  Factories that are called to obtain a parameter
are not run. -/
inductive Motion (ρ : Type) where
  | asked (reference : ρ)
  | reused (expression : String) (parameters : List (String × Argument ρ))
deriving DecidableEq, Repr

inductive Act (ρ : Type) where
  | start (owner : Owner) (property : String) (motion : Motion ρ)
  | fetch (animation : Nat)
  | pause (animation : Nat)
deriving DecidableEq, Repr

def Act.begun? {ρ : Type} : Act ρ → Option (Owner × String)
  | .start owner property _ => some (owner, property)
  | _ => none

/-- The locals of a method, the reusable animation, and what was done so far. -/
structure Scope (ρ : Type) where
  locals : String → Option Entity
  expression : String := ""
  parameters : List (String × Argument ρ) := []
  acts : List (Act ρ) := []

namespace Scope

variable {ρ : Type}

def opening : Scope ρ where
  locals name := if name = CSharp.holder .result then some .object else none

variable (s : Scope ρ)

def entity? (h : Holder) : Option Entity :=
  s.locals (CSharp.holder h)

def owner? (t : Target) : Option Owner :=
  (s.entity? t.holder).map (⟨·, t.onProperties⟩)

def argument? : Operand ρ → Option (Argument ρ)
  | .object reference => some (.asked reference)
  | .holder h => (s.entity? h).map .held
  | _ => none

def starts : List (Owner × String) :=
  s.acts.filterMap Act.begun?

def running? (owner : Owner) (property : String) : Option Nat :=
  (s.starts.reverse.idxOf? (owner, property)).map (s.starts.length - 1 - ·)

def perform (act : Act ρ) : Scope ρ :=
  { s with acts := s.acts ++ [act] }

def hold (name : String) (entity : Entity) : Scope ρ :=
  { s with locals := fun other => if other = name then some entity else s.locals other }

/-- Runs a statement that starts an animation or belongs to its start.  There is no result where a name
is used before it is declared, or declared again. -/
def step : Statement ρ → Option (Scope ρ)
  | .clearParameters => some { s with parameters := [] }
  | .assign .reusable property (.text text) =>
    some (if property = "Expression" then { s with expression := text } else s)
  | .setParameter .reusable name value =>
    (s.argument? value).map fun argument =>
      { s with parameters := s.parameters ++ [(name, argument)] }
  | .startAnimation target property (.object reference) =>
    (s.owner? target).map fun owner => s.perform (.start owner property (.asked reference))
  | .startAnimation target property (.holder .reusable) =>
    (s.owner? target).map fun owner =>
      s.perform (.start owner property (.reused s.expression s.parameters))
  | .fetchController declares depth target property => do
    let owner ← s.owner? target
    let animation ← s.running? owner property
    let name := CSharp.holder (.controller depth)
    if declares = (s.locals name).isSome then none
    else some ((s.hold name (.controller animation)).perform (.fetch animation))
  | .pauseController depth =>
    match s.entity? (.controller depth) with
    | some (.controller animation) => some (s.perform (.pause animation))
    | _ => none
  | _ => none

def run (ss : List (Statement ρ)) : Option (Scope ρ) :=
  ss.foldlM step s

inductive Steps (s : Scope ρ) : Statement ρ → Scope ρ → Prop
  | clear : Steps s .clearParameters { s with parameters := [] }
  | assign {property text : String} :
      Steps s (.assign .reusable property (.text text))
        (if property = "Expression" then { s with expression := text } else s)
  | set {name : String} {value : Operand ρ} {argument : Argument ρ} :
      s.argument? value = some argument →
      Steps s (.setParameter .reusable name value)
        { s with parameters := s.parameters ++ [(name, argument)] }
  | start {target : Target} {property : String} {reference : ρ} {owner : Owner} :
      s.owner? target = some owner →
      Steps s (.startAnimation target property (.object reference))
        (s.perform (.start owner property (.asked reference)))
  | startReusable {target : Target} {property : String} {owner : Owner} :
      s.owner? target = some owner →
      Steps s (.startAnimation target property (.holder .reusable))
        (s.perform (.start owner property (.reused s.expression s.parameters)))
  | fetch {declares : Bool} {depth : Nat} {target : Target} {property : String} {owner : Owner}
      {animation : Nat} :
      s.owner? target = some owner → s.running? owner property = some animation →
      (s.locals (CSharp.holder (.controller depth))).isSome = !declares →
      Steps s (.fetchController declares depth target property)
        ((s.hold (CSharp.holder (.controller depth)) (.controller animation)).perform
          (.fetch animation))
  | pause {depth animation : Nat} :
      s.entity? (.controller depth) = some (.controller animation) →
      Steps s (.pauseController depth) (s.perform (.pause animation))

theorem step_fetchController {declares : Bool} {depth : Nat} {target : Target} {property : String}
    {owner : Owner} {animation : Nat} (howner : s.owner? target = some owner)
    (hrunning : s.running? owner property = some animation)
    (hdeclared : (s.locals (CSharp.holder (.controller depth))).isSome = !declares) :
    s.step (.fetchController declares depth target property) =
      some ((s.hold (CSharp.holder (.controller depth)) (.controller animation)).perform
        (.fetch animation)) := by
  simp [step, howner, hrunning, hdeclared]

theorem steps_of_step {s s' : Scope ρ} {statement : Statement ρ} (h : s.step statement = some s') :
    s.Steps statement s' := by
  unfold step at h
  split at h
  next =>
    cases h
    exact .clear
  next =>
    cases h
    exact .assign
  next =>
    obtain ⟨argument, hargument, rfl⟩ := Option.map_eq_some_iff.mp h
    exact .set hargument
  next =>
    obtain ⟨owner, howner, rfl⟩ := Option.map_eq_some_iff.mp h
    exact .start howner
  next =>
    obtain ⟨owner, howner, rfl⟩ := Option.map_eq_some_iff.mp h
    exact .startReusable howner
  next =>
    obtain ⟨owner, howner, h⟩ := Option.bind_eq_some_iff.mp h
    obtain ⟨animation, hrunning, h⟩ := Option.bind_eq_some_iff.mp h
    obtain ⟨hdeclared, h⟩ := Option.ite_none_left_eq_some.mp h
    cases h
    exact .fetch howner hrunning (Bool.eq_not.mpr (Ne.symm hdeclared))
  next =>
    split at h
    next hentity =>
      cases h
      exact .pause hentity
    next => cases h
  next => cases h

@[simp] theorem run_nil : s.run [] = some s := rfl

theorem run_cons (statement : Statement ρ) (ss : List (Statement ρ)) :
    s.run (statement :: ss) = (s.step statement).bind fun s' => s'.run ss := rfl

theorem run_append (ss ts : List (Statement ρ)) :
    s.run (ss ++ ts) = (s.run ss).bind fun s' => s'.run ts :=
  List.foldlM_append

end Scope

/-! ## Names of locals -/

namespace CSharp

theorem toList_holder_controller (depth : Nat) :
    ∃ digits, (holder (.controller depth)).toList = "controller".toList ++ digits ∧
      Scientific.natOfDigits digits = depth := by
  cases depth with
  | zero => exact ⟨[], rfl, rfl⟩
  | succ depth =>
    refine ⟨Nat.toDigits 10 (depth + 1), ?_, Scientific.natOfDigits_toDigits _⟩
    simp [holder, Nat.toString_eq_repr, Nat.toList_repr]

theorem holder_controller_inj {d e : Nat} (h : holder (.controller d) = holder (.controller e)) :
    d = e := by
  obtain ⟨digits, hd, rfl⟩ := toList_holder_controller d
  obtain ⟨digits', he, rfl⟩ := toList_holder_controller e
  rw [h, he] at hd
  rw [List.append_cancel_left hd]

theorem holder_controller_ne_result (depth : Nat) : holder (.controller depth) ≠ holder .result := by
  intro h
  obtain ⟨digits, hd, _⟩ := toList_holder_controller depth
  rw [h] at hd
  cases hd

end CSharp

/-! ## Declarations and uses -/

section Scoping

variable {ρ : Type}

def Holder.locals : Holder → List String
  | .reusable => []
  | h => [CSharp.holder h]

def Operand.locals : Operand ρ → List String
  | .holder h => h.locals
  | _ => []

def Statement.declares : Statement ρ → List String
  | .fetchController true depth _ _ => [CSharp.holder (.controller depth)]
  | _ => []

def Statement.uses : Statement ρ → List String
  | .assign h _ value => h.locals ++ value.locals
  | .setParameter h _ value => h.locals ++ value.locals
  | .startAnimation target _ animation => target.holder.locals ++ animation.locals
  | .fetchController true _ target _ => target.holder.locals
  | .fetchController false depth target _ =>
    target.holder.locals ++ [CSharp.holder (.controller depth)]
  | .pauseController depth => [CSharp.holder (.controller depth)]
  | _ => []

/-- Straight-line code that declares no local again and uses none before it is declared. -/
def Scoped : (locals : List String) → List (Statement ρ) → Prop
  | _, [] => True
  | locals, statement :: rest =>
    (∀ name ∈ statement.declares, name ∉ locals) ∧ (∀ name ∈ statement.uses, name ∈ locals) ∧
      Scoped (statement.declares ++ locals) rest

namespace Scope

variable {s s' : Scope ρ}

theorem isSome_of_entity? {h : Holder} {entity : Entity} (hentity : s.entity? h = some entity) :
    ∀ name ∈ h.locals, (s.locals name).isSome = true := by
  intro name hname
  cases h with
  | reusable => cases hname
  | _ =>
    cases List.mem_singleton.mp hname
    exact Option.isSome_of_eq_some hentity

theorem isSome_of_owner? {target : Target} {owner : Owner} (h : s.owner? target = some owner) :
    ∀ name ∈ target.holder.locals, (s.locals name).isSome = true := by
  obtain ⟨entity, hentity, _⟩ := Option.map_eq_some_iff.mp h
  exact isSome_of_entity? hentity

theorem isSome_of_argument? {value : Operand ρ} {argument : Argument ρ}
    (h : s.argument? value = some argument) :
    ∀ name ∈ value.locals, (s.locals name).isSome = true := by
  cases value with
  | holder holder =>
    obtain ⟨entity, hentity, _⟩ := Option.map_eq_some_iff.mp h
    exact isSome_of_entity? hentity
  | _ => exact fun name hname => absurd hname List.not_mem_nil

structure Respects (s s' : Scope ρ) (statement : Statement ρ) : Prop where
  fresh : ∀ name ∈ statement.declares, s.locals name = none
  known : ∀ name ∈ statement.uses, (s.locals name).isSome = true
  locals : ∀ name, (s'.locals name).isSome = true ↔
    name ∈ statement.declares ∨ (s.locals name).isSome = true

theorem respects_of_locals_eq {statement : Statement ρ} (hdeclares : statement.declares = [])
    (hsame : s'.locals = s.locals) (huses : ∀ name ∈ statement.uses, (s.locals name).isSome = true) :
    s.Respects s' statement := by
  refine ⟨?_, huses, ?_⟩ <;> simp [hdeclares, hsame]

theorem respects_fetch {declares : Bool} {depth : Nat} {target : Target} {property : String}
    {owner : Owner} (animation : Nat) (howner : s.owner? target = some owner)
    (hdeclared : (s.locals (CSharp.holder (.controller depth))).isSome = !declares) :
    s.Respects ((s.hold (CSharp.holder (.controller depth)) (.controller animation)).perform
      (.fetch animation)) (.fetchController declares depth target property) := by
  have hused := isSome_of_owner? howner
  have hnames (name : String) :
      (((s.hold (CSharp.holder (.controller depth)) (.controller animation)).perform
        (.fetch animation)).locals name).isSome = true ↔
        name = CSharp.holder (.controller depth) ∨ (s.locals name).isSome = true := by
    by_cases hname : name = CSharp.holder (.controller depth) <;> simp [perform, hold, hname]
  cases declares with
  | true =>
    refine ⟨?_, hused, ?_⟩
    · simpa [Statement.declares] using hdeclared
    · simpa [Statement.declares] using hnames
  | false =>
    refine ⟨by simp [Statement.declares], ?_, fun name => ?_⟩
    · simpa [Statement.uses, or_imp, forall_and] using ⟨hused, hdeclared⟩
    · rw [hnames]
      refine ⟨?_, fun hname => .inr (hname.resolve_left List.not_mem_nil)⟩
      rintro (rfl | hname)
      · exact .inr hdeclared
      · exact .inr hname

theorem Steps.respects {statement : Statement ρ} (h : s.Steps statement s') :
    s.Respects s' statement := by
  cases h with
  | clear => exact respects_of_locals_eq rfl rfl (by simp [Statement.uses])
  | assign =>
    refine respects_of_locals_eq rfl ?_ (by simp [Statement.uses, Holder.locals, Operand.locals])
    split <;> rfl
  | set hargument => exact respects_of_locals_eq rfl rfl (isSome_of_argument? hargument)
  | start howner =>
    refine respects_of_locals_eq rfl rfl ?_
    simpa [Statement.uses, Operand.locals] using isSome_of_owner? howner
  | startReusable howner =>
    refine respects_of_locals_eq rfl rfl ?_
    simpa [Statement.uses, Operand.locals, Holder.locals] using isSome_of_owner? howner
  | fetch howner _ hdeclared => exact respects_fetch _ howner hdeclared
  | pause hentity => exact respects_of_locals_eq rfl rfl (isSome_of_entity? hentity)

theorem scoped_of_run {locals : List String} {ss : List (Statement ρ)} (h : s.run ss = some s')
    (hlocals : ∀ name, (s.locals name).isSome = true ↔ name ∈ locals) : Scoped locals ss := by
  induction ss generalizing s locals with
  | nil => trivial
  | cons statement ss ih =>
    obtain ⟨t, hstep, hrun⟩ := Option.bind_eq_some_iff.mp h
    obtain ⟨hdeclares, huses, hnames⟩ := (steps_of_step hstep).respects
    refine ⟨fun name hname hmem => ?_, fun name hname => (hlocals name).mp (huses name hname),
      ih hrun fun name => ?_⟩
    · have hsome := (hlocals name).mpr hmem
      rw [hdeclares name hname] at hsome
      cases hsome
    · rw [hnames, hlocals, List.mem_append]

end Scope

end Scoping

/-! ## The walk of the animators -/

namespace Plan

variable {n : Nat} (p : Plan n) (caller : Fin n)

/-- What the start of an animation comes to: it is asked for, or built on the reusable one if it is
transient.  A transient animation has its owner at hand, where that is an object. -/
def motion (owner : Option (Fin n)) (animation : Fin n) : Motion (Request n) :=
  match p.merge.object animation with
  | .composition _ (.expressionAnimation parameters expression) =>
    if (p.site animation).retained then .asked (p.request caller animation)
    else .reused expression <| parameters.references.map fun (name, object) =>
      (name, if owner = some object then .held .object
        else .asked (p.request p.merge.representative[animation] object))
  | _ => .asked (p.request caller animation)

mutual
/-- The acts for an animator whose animation has the number `first`: its animation is started; its
controller, if it has one, is fetched and paused; and then come the animators on the property set of the
controller and those on the controller itself. -/
def walk (object : Option (Fin n)) (owner : Owner) (first : Nat) :
    Animator (Fin n) → List (Act (Request n))
  | .plain property animation => [.start owner property (p.motion caller object animation)]
  | .controlled property animation _ onProperties onController =>
    .start owner property (p.motion caller object animation) :: .fetch first :: .pause first ::
      (walkAll none ⟨.controller first, true⟩ (first + 1) onProperties ++
        walkAll none ⟨.controller first, false⟩
          (first + 1 + (animatorReferences onProperties).length) onController)
def walkAll (object : Option (Fin n)) (owner : Owner) (first : Nat) :
    List (Animator (Fin n)) → List (Act (Request n))
  | [] => []
  | animator :: rest =>
    walk object owner first animator ++
      walkAll object owner (first + animator.references.length) rest
end

def walkBase (r : Fin n) (base : Base (Fin n)) : List (Act (Request n)) :=
  p.walkAll r (some r) ⟨.object, true⟩ 0 base.onProperties ++
    p.walkAll r (some r) ⟨.object, false⟩ (animatorReferences base.onProperties).length base.onObject

mutual
theorem length_begun_walk (object : Option (Fin n)) (owner : Owner) (first : Nat)
    (a : Animator (Fin n)) :
    ((p.walk caller object owner first a).filterMap Act.begun?).length = a.references.length := by
  cases a with
  | plain property animation => simp [walk, Act.begun?, Animator.references]
  | controlled property animation values onProperties onController =>
    simp [walk, List.filterMap_cons, Act.begun?, Animator.references, length_begun_walkAll]

theorem length_begun_walkAll (object : Option (Fin n)) (owner : Owner) (first : Nat)
    (as : List (Animator (Fin n))) :
    ((p.walkAll caller object owner first as).filterMap Act.begun?).length =
      (animatorReferences as).length := by
  cases as with
  | nil => simp [walkAll, animatorReferences]
  | cons a as =>
    simp [walkAll, animatorReferences, length_begun_walk object owner _ a,
      length_begun_walkAll object owner _ as]
end

end Plan

def Holder.IsBelow (depth : Nat) : Holder → Prop
  | .result => True
  | .reusable => False
  | .controller e => e < depth

namespace Scope

variable {ρ : Type}

structure Knows (s : Scope ρ) (declared : List Nat) : Prop where
  object : s.locals (CSharp.holder .result) = some .object
  controllers : ∀ depth, (s.locals (CSharp.holder (.controller depth))).isSome = declared.contains depth

/-- Some acts are performed, and the locals of the object and of lower depths are left alone. -/
structure Leads (depth : Nat) (acts : List (Act ρ)) (s s' : Scope ρ) : Prop where
  acts : s'.acts = s.acts ++ acts
  object : s'.locals (CSharp.holder .result) = s.locals (CSharp.holder .result)
  kept : ∀ e < depth, s'.locals (CSharp.holder (.controller e)) = s.locals (CSharp.holder (.controller e))

namespace Leads

variable {depth : Nat} {acts acts' : List (Act ρ)} {s s' s'' : Scope ρ}

theorem refl (depth : Nat) (s : Scope ρ) : Leads depth [] s s :=
  ⟨(List.append_nil _).symm, rfl, fun _ _ => rfl⟩

theorem trans (h : Leads depth acts s s') (h' : Leads depth acts' s' s'') :
    Leads depth (acts ++ acts') s s'' where
  acts := by rw [h'.acts, h.acts, List.append_assoc]
  object := h'.object.trans h.object
  kept e he := (h'.kept e he).trans (h.kept e he)

theorem lower {lower : Nat} (h : Leads depth acts s s') (hle : lower ≤ depth) : Leads lower acts s s' :=
  ⟨h.acts, h.object, fun e he => h.kept e (Nat.lt_of_lt_of_le he hle)⟩

theorem starts (h : Leads depth acts s s') : s'.starts = s.starts ++ acts.filterMap Act.begun? := by
  rw [Scope.starts, Scope.starts, h.acts, List.filterMap_append]

theorem owner? (h : Leads depth acts s s') {target : Target} (hbelow : target.holder.IsBelow depth) :
    s'.owner? target = s.owner? target := by
  rw [Scope.owner?, Scope.owner?, entity?, entity?]
  cases hholder : target.holder with
  | result => rw [h.object]
  | reusable =>
    rw [hholder] at hbelow
    exact hbelow.elim
  | controller e =>
    rw [hholder] at hbelow
    rw [h.kept e hbelow]

end Leads

theorem Knows.of_locals {s s' : Scope ρ} {declared : List Nat} (h : s.Knows declared)
    (hsame : s'.locals = s.locals) : s'.Knows declared :=
  ⟨hsame ▸ h.object, hsame ▸ h.controllers⟩

theorem running?_last {s : Scope ρ} {before : List (Owner × String)} {owner : Owner} {property : String}
    (h : s.starts = before ++ [(owner, property)]) : s.running? owner property = some before.length := by
  have hfirst : ((before ++ [(owner, property)]).reverse).idxOf? (owner, property) = some 0 := by
    rw [List.reverse_append, List.reverse_singleton, List.singleton_append, List.idxOf?_cons, if_pos]
    exact beq_self_eq_true _
  rw [running?, h, hfirst]
  simp

theorem run_control {s : Scope ρ} {declared : List Nat} (hs : s.Knows declared) {target : Target}
    {owner : Owner} (howner : s.owner? target = some owner) {before : List (Owner × String)}
    {property : String} (hlast : s.starts = before ++ [(owner, property)]) (depth : Nat) :
    ∃ s', s.run [.fetchController (!declared.contains depth) depth target property,
        .pauseController depth] = some s' ∧
      s'.Knows (depth :: declared) ∧ Leads depth [.fetch before.length, .pause before.length] s s' ∧
      s'.entity? (.controller depth) = some (.controller before.length) := by
  have hfetch := s.step_fetchController howner (running?_last hlast)
    (by rw [hs.controllers, Bool.not_not] : _ = !!declared.contains depth)
  generalize hnew : s.hold (CSharp.holder (.controller depth)) (.controller before.length) = t at hfetch
  have hself : t.locals (CSharp.holder (.controller depth)) = some (.controller before.length) := by
    rw [← hnew]
    exact if_pos rfl
  have hothers {name : String} (hne : name ≠ CSharp.holder (.controller depth)) :
      t.locals name = s.locals name := by
    rw [← hnew]
    exact if_neg hne
  have hpause : (t.perform (.fetch before.length)).step (.pauseController depth) =
      some ((t.perform (.fetch before.length)).perform (.pause before.length)) := by
    rw [step, entity?, perform, hself]
  refine ⟨(t.perform (.fetch before.length)).perform (.pause before.length), ?_,
    ⟨?_, fun e => ?_⟩, ⟨?_, ?_, fun e he => ?_⟩, hself⟩
  · rw [run_cons, hfetch, Option.bind_some, run_cons, hpause]
    rfl
  · exact (hothers (CSharp.holder_controller_ne_result depth).symm).trans hs.object
  · change (t.locals _).isSome = _
    by_cases he : e = depth
    · rw [he, hself]
      simp
    · rw [hothers fun h => he (CSharp.holder_controller_inj h), hs.controllers]
      simp [he]
  · rw [← hnew]
    exact List.append_assoc _ _ _
  · exact hothers (CSharp.holder_controller_ne_result depth).symm
  · exact hothers fun h => Nat.ne_of_lt he (CSharp.holder_controller_inj h)

theorem run_setParameters {s : Scope ρ} {α : Type} {value : α → Operand ρ} {argument : α → Argument ρ}
    (hvalue : ∀ a, s.argument? (value a) = some (argument a)) (references : List (String × α)) :
    s.run (references.map fun (name, a) => .setParameter .reusable name (value a)) =
      some { s with parameters := s.parameters ++ references.map fun (name, a) => (name, argument a) } := by
  induction references generalizing s with
  | nil => simp
  | cons reference references ih =>
    have hstep : s.step (.setParameter .reusable reference.1 (value reference.2)) =
        some { s with parameters := s.parameters ++ [(reference.1, argument reference.2)] } := by
      rw [step, hvalue, Option.map_some]
    rw [List.map_cons, run_cons, hstep, Option.bind_some]
    rw [ih (s := { s with parameters := s.parameters ++ [(reference.1, argument reference.2)] })
      fun a => hvalue a]
    simp

theorem knows_opening : (opening : Scope ρ).Knows [] where
  object := by simp [opening]
  controllers depth := by
    have hnone : (opening : Scope ρ).locals (CSharp.holder (.controller depth)) = none :=
      if_neg (CSharp.holder_controller_ne_result depth)
    rw [hnone]
    rfl

end Scope

namespace Plan

variable {n : Nat} (p : Plan n) (caller : Fin n)

theorem run_startTransient {s : Scope (Request n)} {declared : List Nat} (hs : s.Knows declared)
    (object : Option (Fin n)) {target : Target} {owner : Owner} (howner : s.owner? target = some owner)
    (property : String) (animation : Fin n) (parameters : Parameters (Fin n)) (expression : String) :
    ∃ s', s.run (p.startTransient object target property animation parameters expression) = some s' ∧
      s'.locals = s.locals ∧
      s'.acts = s.acts ++ [.start owner property (.reused expression
        (parameters.references.map fun (name, other) =>
          (name, if object = some other then .held .object
            else .asked (p.request p.merge.representative[animation] other))))] := by
  let built : Scope (Request n) := { s with expression := expression, parameters := [] }
  have hsetUp : s.run ([.clearParameters, .assign .reusable "Expression" (.text expression)] ++
      (Text.present? parameters.target).toList.map fun text =>
        .assign .reusable "Target" (.text text)) = some built := by
    cases Text.present? parameters.target <;> rfl
  have hvalue (other : Fin n) :
      built.argument? (if object = some other then .holder .result
          else .object (p.request p.merge.representative[animation] other)) =
        some (if object = some other then .held .object
          else .asked (p.request p.merge.representative[animation] other)) := by
    split
    · exact congrArg (Option.map Argument.held) hs.object
    · rfl
  have hparameters := Scope.run_setParameters hvalue parameters.references
  rw [startTransient, Scope.run_append, Scope.run_append, hsetUp, Option.bind_some, hparameters,
    Option.bind_some, Scope.run_cons, Scope.step]
  refine ⟨_, congrArg (Option.bind · _) (congrArg (Option.map _) howner), rfl, rfl⟩

theorem run_start {s : Scope (Request n)} {declared : List Nat} (hs : s.Knows declared)
    (object : Option (Fin n)) {target : Target} {owner : Owner} (howner : s.owner? target = some owner)
    (property : String) (animation : Fin n) :
    ∃ s', s.run (p.start caller object target property animation) = some s' ∧
      s'.locals = s.locals ∧
      s'.acts = s.acts ++ [.start owner property (p.motion caller object animation)] := by
  have hplain : s.run [.startAnimation target property (.object (p.request caller animation))] =
      some (s.perform (.start owner property (.asked (p.request caller animation)))) := by
    rw [Scope.run_cons, Scope.step, howner]
    rfl
  unfold start motion
  cases p.merge.object animation with
  | composition base variant =>
    cases variant with
    | expressionAnimation parameters expression =>
      dsimp only
      split
      · exact ⟨_, hplain, rfl, rfl⟩
      · exact p.run_startTransient hs object howner property animation parameters expression
    | _ => exact ⟨_, hplain, rfl, rfl⟩
  | _ => exact ⟨_, hplain, rfl, rfl⟩

theorem isBinding_start (object : Option (Fin n)) (target : Target) (property : String)
    (animation : Fin n) :
    (p.start caller object target property animation).all Statement.isBinding = true := by
  unfold start
  split
  · split
    · rfl
    · exact p.isBinding_startTransient ..
  · rfl

theorem run_start_append {s : Scope (Request n)} {declared : List Nat} (hs : s.Knows declared)
    (object : Option (Fin n)) {target : Target} {owner : Owner} (howner : s.owner? target = some owner)
    (property : String) (animation : Fin n) (depth : Nat) :
    ∃ s', s'.Knows declared ∧ s'.owner? target = some owner ∧
      Scope.Leads depth [.start owner property (p.motion caller object animation)] s s' ∧
      ∀ rest, s.run (declareControllers declared
          (p.start caller object target property animation ++ rest)) =
        s'.run (declareControllers declared rest) := by
  obtain ⟨t, hrun, hlocals, hacts⟩ := p.run_start caller hs object howner property animation
  refine ⟨t, hs.of_locals hlocals, ?_, ⟨hacts, by rw [hlocals], fun e _ => by rw [hlocals]⟩,
    fun rest => ?_⟩
  · rw [← howner, Scope.owner?, Scope.owner?, Scope.entity?, Scope.entity?, hlocals]
  · rw [declareControllers_append (p.isBinding_start caller object target property animation),
      Scope.run_append, hrun, Option.bind_some]

mutual
theorem run_bind {s : Scope (Request n)} {declared : List Nat} (hs : s.Knows declared)
    (object : Option (Fin n)) {target : Target} {owner : Owner} (depth : Nat)
    (howner : s.owner? target = some owner) (a : Animator (Fin n)) :
    ∃ s' declared', s'.Knows declared' ∧
      Scope.Leads depth (p.walk caller object owner s.starts.length a) s s' ∧
      ∀ rest, s.run (declareControllers declared (p.bind caller object target depth a ++ rest)) =
        s'.run (declareControllers declared' rest) := by
  cases a with
  | plain property animation =>
    obtain ⟨t, ht, _, hleads, hrun⟩ :=
      p.run_start_append caller hs object howner property animation depth
    refine ⟨t, declared, ht, ?_, fun rest => ?_⟩
    · rw [walk]
      exact hleads
    · rw [bind, hrun]
  | controlled property animation values onProperties onController =>
    obtain ⟨t, ht, howner', hleads, hrun⟩ :=
      p.run_start_append caller hs object howner property animation depth
    obtain ⟨u, hcontrol, hu, hleads', hheld⟩ := Scope.run_control ht howner' hleads.starts depth
    -- the local of this depth holds the controller until the animators on it are done
    have hcontroller (onProperties : Bool) : u.owner? ⟨.controller depth, onProperties⟩ =
        some ⟨.controller s.starts.length, onProperties⟩ := by
      rw [Scope.owner?, hheld, Option.map_some]
    have hself (onProperties : Bool) :
        (Target.mk (.controller depth) onProperties).holder.IsBelow (depth + 1) :=
      Nat.lt_succ_self depth
    obtain ⟨v, declared', hv, hwalk, hrun'⟩ :=
      run_bindAll hu none (hself true) (hcontroller true) onProperties
    obtain ⟨w, declared'', hw, hwalk', hrun''⟩ :=
      run_bindAll hv none (hself false) ((hwalk.owner? (hself false)).trans (hcontroller false))
        onController
    have hfirst : u.starts.length = s.starts.length + 1 := by
      rw [hleads'.starts, hleads.starts]
      simp [Act.begun?]
    have hsecond : v.starts.length =
        s.starts.length + 1 + (animatorReferences onProperties).length := by
      rw [hwalk.starts, List.length_append, length_begun_walkAll, hfirst]
    rw [hfirst] at hwalk
    rw [hsecond] at hwalk'
    refine ⟨w, declared'', hw, ?_, fun rest => ?_⟩
    · rw [walk]
      exact hleads.trans (hleads'.trans ((hwalk.trans hwalk').lower (Nat.le_succ depth)))
    · have hcode : declareControllers declared
          ([.fetchController false depth target property, .pauseController depth] ++
            (p.bindAll caller none ⟨.controller depth, true⟩ (depth + 1) onProperties ++
              (p.bindAll caller none ⟨.controller depth, false⟩ (depth + 1) onController ++ rest))) =
          [.fetchController (!declared.contains depth) depth target property,
            .pauseController depth] ++ declareControllers (depth :: declared)
            (p.bindAll caller none ⟨.controller depth, true⟩ (depth + 1) onProperties ++
              (p.bindAll caller none ⟨.controller depth, false⟩ (depth + 1) onController ++ rest)) :=
        rfl
      rw [bind, List.append_assoc, List.append_assoc, List.append_assoc, hrun, hcode,
        Scope.run_append, hcontrol, Option.bind_some, hrun', hrun'']

theorem run_bindAll {s : Scope (Request n)} {declared : List Nat} (hs : s.Knows declared)
    (object : Option (Fin n)) {target : Target} {owner : Owner} {depth : Nat}
    (hbelow : target.holder.IsBelow depth) (howner : s.owner? target = some owner)
    (as : List (Animator (Fin n))) :
    ∃ s' declared', s'.Knows declared' ∧
      Scope.Leads depth (p.walkAll caller object owner s.starts.length as) s s' ∧
      ∀ rest, s.run (declareControllers declared (p.bindAll caller object target depth as ++ rest)) =
        s'.run (declareControllers declared' rest) := by
  cases as with
  | nil =>
    refine ⟨s, declared, hs, ?_, fun rest => ?_⟩
    · rw [walkAll]
      exact .refl depth s
    · rw [bindAll]
      rfl
  | cons a as =>
    obtain ⟨t, declared', ht, hleads, hrun⟩ := run_bind hs object depth howner a
    obtain ⟨u, declared'', hu, hleads', hrun'⟩ :=
      run_bindAll ht object hbelow ((hleads.owner? hbelow).trans howner) as
    refine ⟨u, declared'', hu, ?_, fun rest => ?_⟩
    · rw [hleads.starts, List.length_append, length_begun_walk] at hleads'
      rw [walkAll]
      exact hleads.trans hleads'
    · rw [bindAll, List.append_assoc, hrun, hrun']
end

theorem run_startAnimations (r : Fin n) (base : Base (Fin n)) :
    ∃ s, Scope.opening.run (p.startAnimations r base) = some s ∧ s.acts = p.walkBase r base := by
  have hbelow (onProperties : Bool) : (Target.mk .result onProperties).holder.IsBelow 0 := trivial
  have howner (onProperties : Bool) : (Scope.opening (ρ := Request n)).owner? ⟨.result, onProperties⟩ =
      some ⟨.object, onProperties⟩ := rfl
  obtain ⟨t, declared, ht, hleads, hrun⟩ :=
    p.run_bindAll r Scope.knows_opening (some r) (hbelow true) (howner true) base.onProperties
  obtain ⟨u, declared', _, hleads', hrun'⟩ :=
    p.run_bindAll r ht (some r) (hbelow false)
      ((hleads.owner? (hbelow false)).trans (howner false)) base.onObject
  have hfirst : t.starts.length = (animatorReferences base.onProperties).length := by
    rw [hleads.starts, List.length_append, length_begun_walkAll]
    exact Nat.zero_add _
  rw [hfirst] at hleads'
  refine ⟨u, ?_, (hleads.trans hleads').acts⟩
  rw [startAnimations, hrun, ← List.append_nil (p.bindAll r _ ⟨.result, false⟩ 0 _), hrun']
  rfl

end Plan

/-! ## Answered requests -/

section Answers

variable {ρ σ : Type} (f : ρ → σ)

def Argument.map : Argument ρ → Argument σ
  | .asked reference => .asked (f reference)
  | .held entity => .held entity

def Motion.map : Motion ρ → Motion σ
  | .asked reference => .asked (f reference)
  | .reused expression parameters =>
    .reused expression (parameters.map fun (name, argument) => (name, argument.map f))

def Act.map : Act ρ → Act σ
  | .start owner property motion => .start owner property (motion.map f)
  | .fetch animation => .fetch animation
  | .pause animation => .pause animation

namespace Scope

def map (s : Scope ρ) : Scope σ where
  locals := s.locals
  expression := s.expression
  parameters := s.parameters.map fun (name, argument) => (name, argument.map f)
  acts := s.acts.map (Act.map f)

variable (s : Scope ρ)

theorem starts_map : (s.map f).starts = s.starts := by
  have hbegun (act : Act ρ) : (act.map f).begun? = act.begun? := by
    cases act <;> rfl
  simp only [starts, map, List.filterMap_map, Function.comp_def, hbegun]

theorem step_map (statement : Statement ρ) :
    (s.map f).step (statement.map f) = (s.step statement).map (map f) := by
  have howner (target : Target) : (s.map f).owner? target = s.owner? target := rfl
  cases statement with
  | clearParameters => rfl
  | assign holder property value =>
    cases holder with
    | reusable =>
      cases value with
      | text text =>
        simp only [Statement.map_assign, Operand.map_text, step]
        split <;> rfl
      | _ => rfl
    | _ => rfl
  | setParameter holder name value =>
    cases holder with
    | reusable =>
      have hargument : (s.map f).argument? (value.map f) =
          (s.argument? value).map (Argument.map f) := by
        cases value with
        | holder holder =>
          rw [Operand.map_holder, argument?, argument?, Option.map_map]
          rfl
        | _ => rfl
      simp only [Statement.map_setParameter, step, hargument, Option.map_map]
      congr 1
      funext argument
      simp [map]
    | _ => rfl
  | startAnimation target property animation =>
    have hperform (motion : Motion ρ) : (s.owner? target).map (fun owner =>
          (s.map f).perform (.start owner property (motion.map f))) =
        ((s.owner? target).map fun owner => s.perform (.start owner property motion)).map (map f) := by
      rw [Option.map_map]
      congr 1
      funext owner
      simp [map, perform, Act.map]
    cases animation with
    | object reference => exact hperform (.asked reference)
    | holder holder =>
      cases holder with
      | reusable => exact hperform (.reused s.expression s.parameters)
      | _ => rfl
    | _ => rfl
  | fetchController declares depth target property =>
    have hrunning (owner : Owner) : (s.map f).running? owner property = s.running? owner property := by
      rw [running?, running?, starts_map]
    rw [Statement.map_fetchController, step, step, howner]
    cases s.owner? target with
    | none => rfl
    | some owner =>
      simp only [Option.bind_eq_bind, Option.bind_some, hrunning]
      cases s.running? owner property with
      | none => rfl
      | some animation =>
        simp only [Option.bind_some]
        split <;> simp_all [map, hold, perform, Act.map]
  | pauseController depth =>
    have hentity : (s.map f).entity? (.controller depth) = s.entity? (.controller depth) := rfl
    rw [Statement.map_pauseController, step, step, hentity]
    cases s.entity? (.controller depth) with
    | none => rfl
    | some entity =>
      cases entity with
      | object => rfl
      | controller animation => simp [map, perform, Act.map]
  | _ => rfl

theorem run_map (ss : List (Statement ρ)) :
    (s.map f).run (ss.map (Statement.map f)) = (s.run ss).map (map f) := by
  induction ss generalizing s with
  | nil => rfl
  | cons statement ss ih =>
    rw [List.map_cons, run_cons, run_cons, step_map]
    cases s.step statement with
    | none => rfl
    | some t => exact ih t

end Scope

end Answers

/-- The code that starts the animations of an object, whatever its requests are answered with, declares
every local once and before its first use, and does what the walk of the animators does: each animation is
started on its owner, and where it has a controller, that is fetched and paused, and then the animations on
it are started. -/
theorem animations_started_in_preorder {n : Nat} (p : Plan n) (r : Fin n) (base : Base (Fin n))
    {ρ : Type} (f : ρ → Request n) {statements : List (Statement ρ)}
    (h : statements.map (Statement.map f) = p.startAnimations r base) :
    Scoped [CSharp.holder .result] statements ∧
      ∃ s, Scope.opening.run statements = some s ∧ s.acts.map (Act.map f) = p.walkBase r base := by
  obtain ⟨t, hrun, hacts⟩ := p.run_startAnimations r base
  have hmap := Scope.opening.run_map f statements
  rw [h] at hmap
  obtain ⟨s, hs, rfl⟩ := Option.map_eq_some_iff.mp (hmap.symm.trans hrun)
  refine ⟨Scope.scoped_of_run hs fun name => ?_, s, hs, hacts⟩
  by_cases hname : name = CSharp.holder .result <;> simp [Scope.opening, hname]

/-- An animator on the property set, and two with controllers, one of them with a controller on its
controller. -/
def nestedBase : Base (Fin 3) where
  onProperties := [.plain "Progress" 1]
  onObject := [
    .controlled "Opacity" 1 {} [.plain "Speed" 2] [
      .controlled "Rate" 1 {} [] [.plain "Shift" 1],
      .plain "Delay" 1],
    .controlled "Scale" 1 {} [] []]

def nestedHeap : Heap 3 :=
  #v[.composition nestedBase (.containerVisual {}),
    .composition {} (.scalarAnimation {} ⟨1000, []⟩),
    .composition {} (.expressionAnimation {} "t")]

def nestedCode : List (Statement Unit) := [
  .startAnimation ⟨.result, true⟩ "Progress" (.object ()),
  .startAnimation ⟨.result, false⟩ "Opacity" (.object ()),
  .fetchController true 0 ⟨.result, false⟩ "Opacity",
  .pauseController 0,
  .clearParameters,
  .assign .reusable "Expression" (.text "t"),
  .startAnimation ⟨.controller 0, true⟩ "Speed" (.holder .reusable),
  .startAnimation ⟨.controller 0, false⟩ "Rate" (.object ()),
  .fetchController true 1 ⟨.controller 0, false⟩ "Rate",
  .pauseController 1,
  .startAnimation ⟨.controller 1, false⟩ "Shift" (.object ()),
  .startAnimation ⟨.controller 0, false⟩ "Delay" (.object ()),
  .startAnimation ⟨.result, false⟩ "Scale" (.object ()),
  .fetchController false 0 ⟨.result, false⟩ "Scale",
  .pauseController 0]

def nestedActs : List (Act (Request 3)) := [
  .start ⟨.object, true⟩ "Progress" (.asked ⟨0, 1⟩),
  .start ⟨.object, false⟩ "Opacity" (.asked ⟨0, 1⟩),
  .fetch 1,
  .pause 1,
  .start ⟨.controller 1, true⟩ "Speed" (.reused "t" []),
  .start ⟨.controller 1, false⟩ "Rate" (.asked ⟨0, 1⟩),
  .fetch 3,
  .pause 3,
  .start ⟨.controller 3, false⟩ "Shift" (.asked ⟨0, 1⟩),
  .start ⟨.controller 1, false⟩ "Delay" (.asked ⟨0, 1⟩),
  .start ⟨.object, false⟩ "Scale" (.asked ⟨0, 1⟩),
  .fetch 6,
  .pause 6]

theorem animations_started_nested :
    Scoped ["result"] nestedCode ∧
      ∃ s, Scope.opening.run nestedCode = some s ∧
        s.acts.map (Act.map fun _ => ⟨0, 1⟩) = nestedActs := by
  obtain ⟨p, _, hcode, hwalk⟩ : ∃ p, Plan.ofMerge (Merge.ofGraph (Graph.ofRoot nestedHeap 0)
        ((Graph.ofRoot nestedHeap 0).atoms false)) "new" = .ok p ∧
      nestedCode.map (Statement.map fun _ => ⟨0, 1⟩) = p.startAnimations 0 nestedBase ∧
      p.walkBase 0 nestedBase = nestedActs :=
    Scene.exists_of_toOption (by decide +kernel)
  rw [← hwalk]
  exact animations_started_in_preorder p 0 nestedBase _ hcode

end SceneCompiler
