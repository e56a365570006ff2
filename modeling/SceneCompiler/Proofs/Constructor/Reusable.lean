import SceneCompiler.Proofs.Constructor.Simulation
import SceneCompiler.Proofs.Factory.Controllers

/-!
# The reusable expression animation

A factory that binds a transient animation resets the reusable one, gives it the expression, the
target if there is one, and the parameters, and starts it.  Obtaining a parameter may run other
factories.  Where these do not reset it, it is started as it has been built.
-/

namespace SceneCompiler

variable {n : Nat}

/-- The object that a parameter refers to; of parameters with one name the last counts. -/
def Parameters.object? {ρ : Type} (q : Parameters ρ) (name : String) : Option ρ :=
  q.references.reverse.lookup name

def Operand.object? (i : Fin n) : Operand (Request n) → Option (Fin n)
  | .object request => some request.callee
  | .holder .result => some i
  | _ => none

structure Reusable (n : Nat) where
  expression : Option String := none
  target : Option String := none
  parameters : String → Option (Fin n) := fun _ => none

namespace Reusable

def perform (i : Fin n) (state : Reusable n) : Statement (Request n) → Reusable n
  | .clearParameters => { state with parameters := fun _ => none }
  | .assign .reusable "Expression" (.text text) => { state with expression := some text }
  | .assign .reusable "Target" (.text text) => { state with target := some text }
  | .setParameter .reusable name value =>
    { state with parameters := Function.update state.parameters name (value.object? i) }
  | _ => state

def step (state : Reusable n) : Event n → Reusable n
  | .perform i _ statement => state.perform i (statement.map Reply.toRequest)
  | _ => state

def after (events : List (Event n)) : Reusable n :=
  events.foldl step {}

/-- Builds an expression animation on the reusable one, which keeps its target if that has none. -/
def rebuild (m : Merge n) (q : Parameters (Fin n)) (expression : String) (state : Reusable n) :
    Reusable n where
  expression := some expression
  target := (Text.present? q.target).or state.target
  parameters name := (q.object? name).map fun j => m.representative[j]

theorem perform_of_not_isBinding {i : Fin n} {statement : Statement (Request n)}
    (h : statement.isBinding = false) (state : Reusable n) :
    state.perform i statement = state := by
  cases statement with
  | assign holder property value =>
    cases holder with
    | reusable => cases h
    | _ => rfl
  | setParameter holder name value =>
    cases holder with
    | reusable => cases h
    | _ => rfl
  | clearParameters => cases h
  | _ => rfl

theorem step_target_isSome {state : Reusable n} (h : state.target.isSome = true)
    (event : Event n) : (state.step event).target.isSome = true := by
  cases event with
  | perform i position statement =>
    simp only [step]
    generalize statement.map Reply.toRequest = s
    unfold perform
    split
    · exact h
    · exact h
    · rfl
    · exact h
    · exact h
  | _ => exact h

theorem after_target_isSome {events : List (Event n)} {i : Fin n} {position : Nat}
    {statement : Statement (Reply n)} {text : String}
    (hmem : .perform i position statement ∈ events)
    (hstatement : statement.map Reply.toRequest = .assign .reusable "Target" (.text text)) :
    (after events).target.isSome = true := by
  have hfold : ∀ (events : List (Event n)) (state : Reusable n), state.target.isSome = true →
      (events.foldl step state).target.isSome = true := by
    intro events
    induction events with
    | nil => exact fun state h => h
    | cons event events ih => exact fun state h => ih _ (step_target_isSome h event)
  obtain ⟨left, right, rfl⟩ := List.append_of_mem hmem
  rw [after, List.foldl_append, List.foldl_cons]
  refine hfold right _ ?_
  rw [step, hstatement]
  rfl

end Reusable

/-! ## The reusable animation in straight-line code -/

def Argument.object? (i : Fin n) : Argument (Request n) → Option (Fin n)
  | .asked request => some request.callee
  | .held .object => some i
  | .held (.controller _) => none

namespace Scope

variable {i : Fin n} {s s' : Scope (Request n)} {state : Reusable n}

/-- A scope in the factory of an object has the reusable animation as it is. -/
structure Shows (i : Fin n) (s : Scope (Request n)) (state : Reusable n) : Prop where
  expression : s.expression = state.expression.getD ""
  parameters : ∀ name,
    (s.parameters.reverse.lookup name).bind (Argument.object? i) = state.parameters name
  holders : ∀ h entity, s.entity? h = some entity →
    (Argument.held entity).object? i = (Operand.holder h).object? i

theorem shows_opening : Shows i opening {} := by
  refine ⟨rfl, fun _ => rfl, fun h entity hentity => ?_⟩
  obtain ⟨hname, hobject⟩ := Option.ite_none_right_eq_some.mp hentity
  cases hobject
  cases h with
  | result => rfl
  | reusable => exact absurd hname (by decide)
  | controller depth => exact absurd hname (CSharp.holder_controller_ne_result depth)

theorem Shows.argument (h : s.Shows i state) {value : Operand (Request n)}
    {argument : Argument (Request n)} (hvalue : s.argument? value = some argument) :
    argument.object? i = value.object? i := by
  cases value with
  | object request =>
    cases hvalue
    rfl
  | holder holder =>
    obtain ⟨entity, hentity, rfl⟩ := Option.map_eq_some_iff.mp hvalue
    exact h.holders holder entity hentity
  | _ => cases hvalue

theorem Shows.set (h : s.Shows i state) (name : String) {value : Operand (Request n)}
    {argument : Argument (Request n)} (hvalue : s.argument? value = some argument) :
    Shows i { s with parameters := s.parameters ++ [(name, argument)] }
      (state.perform i (.setParameter .reusable name value)) := by
  refine ⟨h.expression, fun other => ?_, h.holders⟩
  simp only [Reusable.perform, List.reverse_append, List.reverse_singleton, List.singleton_append,
    List.lookup_cons]
  by_cases hname : other = name
  · simp [hname, h.argument hvalue]
  · rw [beq_false_of_ne hname, Function.update_of_ne hname]
    exact h.parameters other

theorem Shows.fetch (h : s.Shows i state) (depth animation : Nat) :
    Shows i ((s.hold (CSharp.holder (.controller depth)) (.controller animation)).perform
      (.fetch animation)) state := by
  refine ⟨h.expression, h.parameters, fun holder entity hentity => ?_⟩
  by_cases hname : CSharp.holder holder = CSharp.holder (.controller depth)
  · cases Option.some.inj ((if_pos hname).symm.trans hentity)
    cases holder with
    | result => exact absurd hname.symm (CSharp.holder_controller_ne_result depth)
    | _ => rfl
  · exact h.holders holder entity ((if_neg hname).symm.trans hentity)

theorem Shows.step (h : s.Shows i state) {statement : Statement (Request n)}
    (hstep : s.Steps statement s') : s'.Shows i (state.perform i statement) := by
  cases hstep with
  | clear => exact ⟨h.expression, fun _ => rfl, h.holders⟩
  | @assign property text =>
    by_cases hexpression : property = "Expression"
    · rw [if_pos hexpression, hexpression]
      exact ⟨rfl, h.parameters, h.holders⟩
    · rw [if_neg hexpression]
      by_cases htarget : property = "Target"
      · rw [htarget]
        exact ⟨h.expression, h.parameters, h.holders⟩
      · simpa [Reusable.perform, hexpression, htarget] using h
  | set hvalue => exact h.set _ hvalue
  | start _ | startReusable _ | pause _ => exact ⟨h.expression, h.parameters, h.holders⟩
  | fetch _ _ _ => exact h.fetch _ _

theorem Shows.run (h : s.Shows i state) {ss : List (Statement (Request n))}
    (hrun : s.run ss = some s') : s'.Shows i (ss.foldl (Reusable.perform i) state) := by
  induction ss generalizing s state with
  | nil =>
    cases hrun
    exact h
  | cons statement ss ih =>
    obtain ⟨t, hstep, hrest⟩ := Option.bind_eq_some_iff.mp hrun
    exact ih (h.step (steps_of_step hstep)) hrest

end Scope

namespace Statement

variable {ρ σ : Type} {f : ρ → σ}

theorem map_eq_clearParameters {s : Statement ρ} (h : s.map f = .clearParameters) :
    s = .clearParameters := by
  cases s with
  | clearParameters => rfl
  | _ => cases h

theorem map_eq_startReusable {s : Statement ρ} {target : Target} {property : String}
    (h : s.map f = .startAnimation target property (.holder .reusable)) :
    s = .startAnimation target property (.holder .reusable) := by
  cases s with
  | startAnimation target' property' animation =>
    cases animation with
    | holder holder =>
      cases h
      rfl
    | _ => cases h
  | _ => cases h

@[simp] theorem isStart_map (s : Statement ρ) : (s.map f).isStart = s.isStart := by
  cases s <;> rfl

end Statement

section Block

open Reusable

private theorem foldl_parameters {i : Fin n} {value : Fin n → Operand (Request n)}
    {standsFor : Fin n → Fin n} (hvalue : ∀ j, (value j).object? i = some (standsFor j))
    (references : List (String × Fin n)) (state : Reusable n) :
    (references.map fun entry => Statement.setParameter .reusable entry.1 (value entry.2)).foldl
        (Reusable.perform i) state =
      { state with
        parameters := fun name =>
          ((references.reverse.lookup name).map standsFor).or (state.parameters name) } := by
  induction references generalizing state with
  | nil => rfl
  | cons entry references ih =>
    rw [List.map_cons, List.foldl_cons, ih]
    simp only [Reusable.perform, hvalue, List.reverse_cons, List.lookup_append, Reusable.mk.injEq,
      true_and]
    funext name
    cases references.reverse.lookup name with
    | some j => rfl
    | none =>
      obtain ⟨key, j⟩ := entry
      by_cases hname : name = key
      · simp [hname]
      · simp [hname, List.lookup_cons, beq_false_of_ne hname]

theorem Plan.startTransient_eq (p : Plan n) {r : Fin n} (hr : p.merge.representative[r] = r)
    (top : Bool) (target : Target) (property : String) (a : Fin n) (q : Parameters (Fin n))
    (expression : String) :
    ∃ building,
      p.startTransient (ownerOf r top) target property a q expression =
        .clearParameters :: (building ++ [.startAnimation target property (.holder .reusable)]) ∧
      (∀ s ∈ building, s ≠ .clearParameters ∧ s.isStart = false) ∧
      ∀ state : Reusable n,
        building.foldl (Reusable.perform r) (state.perform r .clearParameters) =
          state.rebuild p.merge q expression := by
  let value : Fin n → Operand (Request n) := fun j =>
    if ownerOf r top = some j then .holder .result
    else .object (p.request p.merge.representative[a] j)
  have hvalue : ∀ j, (value j).object? r = some p.merge.representative[j] := by
    intro j
    by_cases howner : ownerOf r top = some j
    · have hj : r = j := by
        cases top with
        | true => exact Option.some.inj howner
        | false => cases howner
      subst hj
      simp [value, howner, Operand.object?, hr]
    · simp [value, howner, Operand.object?, request]
  refine ⟨[.assign .reusable "Expression" (.text expression)] ++
    ((Text.present? q.target).toList.map fun text => .assign .reusable "Target" (.text text)) ++
    (q.references.map fun entry => .setParameter .reusable entry.1 (value entry.2)), ?_, ?_, ?_⟩
  · simp [startTransient, value]
  · intro s hs
    simp only [List.mem_append, List.mem_singleton, List.mem_map] at hs
    rcases hs with (rfl | ⟨text, _, rfl⟩) | ⟨entry, _, rfl⟩ <;> exact ⟨by simp, rfl⟩
  · intro state
    rw [List.foldl_append, foldl_parameters hvalue]
    cases htarget : Text.present? q.target <;>
      simp [Reusable.perform, Reusable.rebuild, Parameters.object?, htarget]

theorem Plan.startTransient_answered {p : Plan n} {r : Fin n} (hr : p.merge.representative[r] = r)
    {top : Bool} {target : Target} {property : String} {a : Fin n} {q : Parameters (Fin n)}
    {expression : String} {ss : List (Statement (Reply n))}
    (hss : ss.map (Statement.map Reply.toRequest) =
      p.startTransient (ownerOf r top) target property a q expression) :
    ∃ built,
      ss = .clearParameters :: (built ++ [.startAnimation target property (.holder .reusable)]) ∧
      (∀ s ∈ built, s ≠ .clearParameters ∧ s.isStart = false) ∧
      ∀ state : Reusable n,
        (built.map (Statement.map Reply.toRequest)).foldl (Reusable.perform r)
          (state.perform r .clearParameters) = state.rebuild p.merge q expression := by
  obtain ⟨building, hblock, hbuilding, hrebuild⟩ :=
    p.startTransient_eq hr top target property a q expression
  rw [hblock] at hss
  obtain ⟨reset, rest, rfl, hreset, hrest⟩ := List.map_eq_cons_iff.mp hss
  obtain ⟨built, last, rfl, rfl, hlast⟩ := List.map_eq_append_iff.mp hrest
  obtain ⟨start, _, rfl, hstart, hnil⟩ := List.map_eq_cons_iff.mp hlast
  cases List.map_eq_nil_iff.mp hnil
  cases Statement.map_eq_clearParameters hreset
  cases Statement.map_eq_startReusable hstart
  refine ⟨built, rfl, fun s hs => ?_, hrebuild⟩
  obtain ⟨hclear, hnot⟩ := hbuilding _ (List.mem_map_of_mem hs)
  refine ⟨?_, by rwa [Statement.isStart_map] at hnot⟩
  rintro rfl
  exact hclear rfl

theorem Plan.Binds.exists_start {p : Plan n} {r : Fin n} (hr : p.merge.representative[r] = r)
    {front back : List (Fin n)} {a : Fin n} {base : Base (Fin n)} {q : Parameters (Fin n)}
    {expression : String} {ss : List (Statement (Request n))}
    (h : p.Binds r (front ++ a :: back) ss)
    (hobject : p.merge.object a = .composition base (.expressionAnimation q expression))
    (hsite : (p.site a).retained = false) :
    ∃ before building target property after, p.Binds r front before ∧
      ss = (before ++ building) ++ .startAnimation target property (.holder .reusable) :: after ∧
      (before ++ building).countP Statement.isStart = front.length := by
  obtain ⟨before, top, target, property, after, hbefore, rfl⟩ := h.exists_transient hobject hsite
  obtain ⟨building, hblock, hbuilding, _⟩ :=
    p.startTransient_eq hr top target property a q expression
  have hzero : building.countP Statement.isStart = 0 :=
    List.countP_eq_zero.mpr fun s hs => by simp [(hbuilding s hs).2]
  refine ⟨before, .clearParameters :: building, target, property, after, hbefore, ?_, ?_⟩
  · rw [hblock]
    simp
  · simp [List.countP_append, hbefore.countP_isStart, hzero, Statement.isStart]

def Plan.Resets (p : Plan n) (r : Fin n) : Prop :=
  ∃ a ∈ animatorReferences (p.merge.object r).started,
    (p.merge.object a).isExpressionAnimation = true ∧ (p.site a).retained = false

theorem Plan.Binds.exists_of_reset {p : Plan n} {r : Fin n} {as : List (Fin n)}
    {ss : List (Statement (Request n))} (h : p.Binds r as ss) (hreset : .clearParameters ∈ ss) :
    ∃ a ∈ as, (p.merge.object a).isExpressionAnimation = true ∧ (p.site a).retained = false := by
  induction h with
  | done => cases hreset
  | pass hs _ ih =>
    rcases List.mem_cons.mp hreset with rfl | hreset
    · cases hs
    · exact ih hreset
  | retained _ _ ih =>
    rcases List.mem_cons.mp hreset with hreset | hreset
    · cases hreset
    · obtain ⟨a, ha, hbound⟩ := ih hreset
      exact ⟨a, List.mem_cons_of_mem _ ha, hbound⟩
  | transient hobject hsite _ _ =>
    exact ⟨_, List.mem_cons_self, by rw [hobject]; rfl, hsite⟩

theorem Plan.Binds.foldl_eq {p : Plan n} {r : Fin n} {as : List (Fin n)}
    {ss : List (Statement (Request n))} (h : p.Binds r as ss)
    (hr : p.merge.representative[r] = r) (hreset : .clearParameters ∉ ss) (state : Reusable n) :
    ss.foldl (Reusable.perform r) state = state := by
  induction h generalizing state with
  | done => rfl
  | pass hs _ ih =>
    rw [List.foldl_cons, Reusable.perform_of_not_isBinding hs]
    exact ih (fun hmem => hreset (List.mem_cons_of_mem _ hmem)) state
  | retained _ _ ih => exact ih (fun hmem => hreset (List.mem_cons_of_mem _ hmem)) state
  | @transient top target property a _ q expression =>
    obtain ⟨building, hblock, _⟩ := p.startTransient_eq hr top target property a q expression
    exact absurd (by simp [hblock]) hreset

end Block

end SceneCompiler
