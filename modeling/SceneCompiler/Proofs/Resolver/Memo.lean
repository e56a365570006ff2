import Mathlib.Data.List.Nodup
import SceneCompiler.Resolver

/-!
# What a resolver remembers

A request is answered in one of seven ways, and only a call that is made for the first time is added to
the calls made so far.  So each pair of indices is called at most once.
-/

namespace SceneCompiler.Resolver

variable {ι : Type}

namespace Step

def pair (s : Step ι) : ι × ι :=
  (s.caller.index, s.callee.index)

def isCall (s : Step ι) : Bool :=
  match s.answer with
  | .ok (.factoryCall _) => true
  | _ => false

end Step

variable [Ordinal ι]

/-- The ways to answer a request, with the calls made before and after. -/
inductive Answered : Step ι → Prop
  | inline {caller callee : Site ι} {calls : Calls ι} {text : String} :
      callee.inline = some text →
      Answered ⟨caller, callee, calls, .ok (.inline text), calls⟩
  | refused {caller callee : Site ι} {calls : Calls ι} :
      callee.inline = none → callee.retained = false →
      Answered ⟨caller, callee, calls, .error (.noFactory caller.label callee.label), calls⟩
  | earlier {caller callee : Site ι} {calls : Calls ι} :
      callee.hasFactory = true → Ordinal.le callee.index caller.index = true →
      callee.stored = true →
      Answered ⟨caller, callee, calls, .ok (.field callee.fieldName), calls⟩
  | lost {caller callee : Site ι} {calls : Calls ι} :
      callee.hasFactory = true → Ordinal.le callee.index caller.index = true →
      callee.stored = false →
      Answered ⟨caller, callee, calls, .error (.missingStorage caller.label callee.label), calls⟩
  | again {caller callee : Site ι} {calls : Calls ι} :
      callee.hasFactory = true → Ordinal.le callee.index caller.index = false →
      (caller.index, callee.index) ∈ calls → callee.stored = true →
      Answered ⟨caller, callee, calls, .ok (.field callee.fieldName), calls⟩
  | twice {caller callee : Site ι} {calls : Calls ι} :
      callee.hasFactory = true → Ordinal.le callee.index caller.index = false →
      (caller.index, callee.index) ∈ calls → callee.stored = false →
      Answered ⟨caller, callee, calls, .error (.duplicateCall caller.label callee.label), calls⟩
  | first {caller callee : Site ι} {calls : Calls ι} :
      callee.hasFactory = true → Ordinal.le callee.index caller.index = false →
      (caller.index, callee.index) ∉ calls →
      Answered ⟨caller, callee, calls, .ok (.factoryCall callee.factoryCall),
        calls ++ [(caller.index, callee.index)]⟩

/-! ## One request -/

namespace Answered

variable {s : Step ι} (h : Answered s)

include h

theorem after_eq :
    (s.isCall = true ∧ s.pair ∉ s.before ∧ s.after = s.before ++ [s.pair]) ∨
      (s.isCall = false ∧ s.after = s.before) := by
  cases h with
  | first _ _ hnew => exact .inl ⟨rfl, hnew, rfl⟩
  | _ => exact .inr ⟨rfl, rfl⟩

theorem length_after : s.after.length = s.before.length + [s].countP Step.isCall := by
  rcases h.after_eq with ⟨hcall, _, heq⟩ | ⟨hcall, heq⟩ <;> simp [hcall, heq]

theorem after_of_error {fault : Fault} (hfault : s.answer = .error fault) : s.after = s.before := by
  cases h with
  | first => cases hfault
  | _ => rfl

theorem stored_of_field {text : String} (hfield : s.answer = .ok (.field text)) :
    s.callee.stored = true := by
  cases h with
  | earlier _ _ hstored => exact hstored
  | again _ _ _ hstored => exact hstored
  | _ => cases hfield

theorem of_isCall (hcall : s.isCall = true) :
    s.callee.hasFactory = true ∧ Ordinal.le s.callee.index s.caller.index = false := by
  cases h with
  | first hfactory hle _ => exact ⟨hfactory, hle⟩
  | _ => cases hcall

theorem answer_of_mem (hfactory : s.callee.hasFactory = true)
    (hle : Ordinal.le s.callee.index s.caller.index = false) (hmem : s.pair ∈ s.before) :
    s.answer = if s.callee.stored then .ok (.field s.callee.fieldName)
      else .error (.duplicateCall s.caller.label s.callee.label) := by
  cases h with
  | inline hinline => simp [Site.hasFactory, hinline] at hfactory
  | refused _ hretained => simp [Site.hasFactory, hretained] at hfactory
  | earlier _ hle' _ => rw [hle'] at hle; cases hle
  | lost _ hle' _ => rw [hle'] at hle; cases hle
  | again _ _ _ hstored => rw [if_pos hstored]
  | twice _ _ _ hstored => rw [if_neg (by simp [hstored])]
  | first _ _ hnew => exact absurd hmem hnew

end Answered

variable [DecidableEq ι]

theorem step_answered (calls : Calls ι) (caller callee : Site ι) :
    Answered (step calls caller callee) := by
  unfold step resolve
  cases hinline : callee.inline with
  | some text => exact .inline hinline
  | none =>
    cases hretained : callee.retained with
    | false => exact .refused hinline hretained
    | true =>
      have hfactory : callee.hasFactory = true := by simp [Site.hasFactory, hinline, hretained]
      cases hle : Ordinal.le callee.index caller.index with
      | true =>
        cases hstored : callee.stored with
        | true => exact .earlier hfactory hle hstored
        | false => exact .lost hfactory hle hstored
      | false =>
        cases hmade : calls.contains (caller.index, callee.index) with
        | true =>
          have hmem := List.contains_iff_mem.mp hmade
          cases hstored : callee.stored with
          | true => exact .again hfactory hle hmem hstored
          | false => exact .twice hfactory hle hmem hstored
        | false =>
          refine .first hfactory hle fun hmem => ?_
          rw [List.contains_iff_mem.mpr hmem] at hmade
          cases hmade

@[simp] theorem step_caller (calls : Calls ι) (caller callee : Site ι) :
    (step calls caller callee).caller = caller := by
  unfold step
  split <;> rfl

@[simp] theorem step_callee (calls : Calls ι) (caller callee : Site ι) :
    (step calls caller callee).callee = callee := by
  unfold step
  split <;> rfl

@[simp] theorem step_before (calls : Calls ι) (caller callee : Site ι) :
    (step calls caller callee).before = calls := by
  unfold step
  split <;> rfl

/-! ## Runs -/

theorem answered_of_mem_run {calls : Calls ι} {requests : List (Site ι × Site ι)} {s : Step ι}
    (h : s ∈ run calls requests) : Answered s := by
  fun_induction run calls requests with
  | case1 => cases h
  | case2 calls caller callee rest ih =>
    rcases List.mem_cons.mp h with rfl | h
    · exact step_answered calls caller callee
    · exact ih h

theorem subset_before_of_mem_run {calls : Calls ι} {requests : List (Site ι × Site ι)} {s : Step ι}
    (h : s ∈ run calls requests) : calls ⊆ s.before := by
  fun_induction run calls requests with
  | case1 => cases h
  | case2 calls caller callee rest ih =>
    rcases List.mem_cons.mp h with rfl | h
    · rw [step_before]
      exact List.Subset.refl calls
    · have hafter : calls ⊆ (step calls caller callee).after := by
        rcases (step_answered calls caller callee).after_eq with ⟨_, _, heq⟩ | ⟨_, heq⟩
        · rw [heq, step_before]
          exact List.subset_append_left _ _
        · rw [heq, step_before]
          exact List.Subset.refl calls
      exact List.Subset.trans hafter (ih h)

theorem pairwise_run (calls : Calls ι) (requests : List (Site ι × Site ι)) :
    (run calls requests).Pairwise fun s s' => s.after ⊆ s'.before := by
  fun_induction run calls requests with
  | case1 => exact .nil
  | case2 calls caller callee rest ih =>
    exact .cons (fun s' hs' => subset_before_of_mem_run hs') ih

theorem pairwise_mem_before (calls : Calls ι) (requests : List (Site ι × Site ι)) :
    (run calls requests).Pairwise fun s s' => s.isCall = true → s.pair ∈ s'.before := by
  refine (pairwise_run calls requests).imp_of_mem fun {s s'} hs _ hsub hcall => hsub ?_
  rcases (answered_of_mem_run hs).after_eq with ⟨_, _, heq⟩ | ⟨hnot, _⟩
  · rw [heq]
    exact List.mem_concat_self
  · rw [hcall] at hnot
    cases hnot

theorem length_after_of_run {calls : Calls ι} {requests : List (Site ι × Site ι)}
    {earlier later : List (Step ι)} {s : Step ι} (h : run calls requests = earlier ++ s :: later) :
    s.after.length = calls.length + (earlier ++ [s]).countP Step.isCall := by
  fun_induction run calls requests generalizing earlier with
  | case1 => simp at h
  | case2 calls caller callee rest ih =>
    have hfirst := (step_answered calls caller callee).length_after
    rw [step_before] at hfirst
    cases earlier with
    | nil =>
      rw [List.nil_append] at h ⊢
      rw [← (List.cons.inj h).1]
      exact hfirst
    | cons first earlier =>
      obtain ⟨rfl, hrest⟩ := List.cons.inj h
      rw [ih hrest, hfirst, Nat.add_assoc, ← List.countP_append]
      rfl

theorem nodup_after {calls : Calls ι} (hnodup : calls.Nodup) {requests : List (Site ι × Site ι)}
    {s : Step ι} (h : s ∈ run calls requests) : s.after.Nodup := by
  fun_induction run calls requests with
  | case1 => cases h
  | case2 calls caller callee rest ih =>
    have hafter : (step calls caller callee).after.Nodup := by
      rcases (step_answered calls caller callee).after_eq with ⟨_, hnew, heq⟩ | ⟨_, heq⟩
      · rw [heq]
        rw [step_before] at hnew ⊢
        exact hnodup.append (List.nodup_singleton _) (by simpa using hnew)
      · rwa [heq, step_before]
    rcases List.mem_cons.mp h with rfl | h
    · exact hafter
    · exact ih hafter h

theorem filter_run (calls : Calls ι) (requests : List (Site ι × Site ι)) :
    (run calls requests).filter (·.answer.isOk) =
      run calls (((run calls requests).filter (·.answer.isOk)).map fun s => (s.caller, s.callee)) := by
  fun_induction run calls requests with
  | case1 => rfl
  | case2 calls caller callee rest ih =>
    cases hanswer : (step calls caller callee).answer with
    | ok access =>
      rw [List.filter_cons_of_pos (by rw [hanswer]; rfl), List.map_cons, step_caller, step_callee,
        run, ← ih]
    | error fault =>
      have hafter := (step_answered calls caller callee).after_of_error hanswer
      rw [step_before] at hafter
      rw [hafter] at ih ⊢
      rwa [List.filter_cons_of_neg (by rw [hanswer]; exact Bool.false_ne_true)]

/-- Along a run, a pair of indices is called at most once; only what is stored is read from a field;
once a pair is called its callee is read, or refused if it is not stored; and the calls are those that
were answered, whatever fails. -/
theorem run_remembers_calls (requests : List (Site ι × Site ι)) :
    ((run [] requests).Pairwise fun s s' =>
      s.isCall = true → s'.isCall = true → s'.pair ≠ s.pair) ∧
    (∀ s ∈ run [] requests, ∀ text, s.answer = .ok (.field text) → s.callee.stored = true) ∧
    ((run [] requests).Pairwise fun s s' =>
      s.isCall = true → s'.pair = s.pair → s'.callee.hasFactory = s.callee.hasFactory →
        s'.answer = if s'.callee.stored then .ok (.field s'.callee.fieldName)
          else .error (.duplicateCall s'.caller.label s'.callee.label)) ∧
    (∀ s ∈ run [] requests, ∀ fault, s.answer = .error fault → s.after = s.before) ∧
    (∀ earlier s later, run [] requests = earlier ++ s :: later →
      s.after.Nodup ∧ s.after.length = (earlier ++ [s]).countP Step.isCall) ∧
    (run [] requests).filter (·.answer.isOk) =
      run [] (((run [] requests).filter (·.answer.isOk)).map fun s => (s.caller, s.callee)) := by
  have hanswered (s : Step ι) (hs : s ∈ run [] requests) : Answered s := answered_of_mem_run hs
  have hmem := pairwise_mem_before [] requests
  refine ⟨hmem.imp_of_mem fun {s s'} _ hs' hmade hcall hcall' hpair => ?_,
    fun s hs text => (hanswered s hs).stored_of_field,
    hmem.imp_of_mem fun {s s'} hs hs' hmade hcall hpair hfactory => ?_,
    fun s hs fault => (hanswered s hs).after_of_error, fun earlier s later hrun => ⟨?_, ?_⟩,
    filter_run [] requests⟩
  · rcases (hanswered s' hs').after_eq with ⟨_, hnew, _⟩ | ⟨hnot, _⟩
    · exact hnew (hpair ▸ hmade hcall)
    · rw [hcall'] at hnot
      cases hnot
  · obtain ⟨hhas, hle⟩ := (hanswered s hs).of_isCall hcall
    obtain ⟨hcaller, hcallee⟩ := Prod.mk.inj hpair
    refine (hanswered s' hs').answer_of_mem (hfactory.trans hhas) ?_ (hpair ▸ hmade hcall)
    rw [hcaller, hcallee, hle]
  · exact nodup_after List.nodup_nil (s := s) (hrun ▸ List.mem_append_right _ List.mem_cons_self)
  · rw [length_after_of_run hrun, List.length_nil, Nat.zero_add]

/-- A visual asks for a brush that is stored and for an easing that is not, each of them twice. -/
def repeatedRequests : List (Site × Site) :=
  let visual : Site := { index := 0, typeName := "SpriteVisual", name := "Visual" }
  let brush : Site := { index := 1, typeName := "ColorBrush", name := "Brush", stored := true }
  let easing : Site := { index := 2, typeName := "StepEasing", name := "Easing" }
  [(visual, brush), (visual, easing), (visual, brush), (visual, easing)]

theorem run_remembers_calls_repeated :
    (run [] repeatedRequests).map Step.isCall = [true, true, false, false] ∧
    ∃ s s', [s, s'].Sublist (run [] repeatedRequests) ∧ s.isCall = true ∧ s'.pair = s.pair ∧
      s'.callee.hasFactory = s.callee.hasFactory ∧ s'.callee.stored = false ∧
      s'.answer = .error (.duplicateCall s'.caller.label s'.callee.label) := by
  obtain ⟨s₁, s₂, s₃, s₄, hrun, hcall, hpair, hfactory, hstored⟩ :
      ∃ s₁ s₂ s₃ s₄, run [] repeatedRequests = [s₁, s₂, s₃, s₄] ∧ s₂.isCall = true ∧
        s₄.pair = s₂.pair ∧ s₄.callee.hasFactory = s₂.callee.hasFactory ∧ s₄.callee.stored = false :=
    ⟨_, _, _, _, rfl, rfl, rfl, rfl, rfl⟩
  have hsub : [s₂, s₄].Sublist (run [] repeatedRequests) := by
    rw [hrun]
    exact .cons _ (.cons_cons _ (.cons _ (.refl _)))
  have hlater := List.pairwise_pair.mp ((run_remembers_calls repeatedRequests).2.2.1.sublist hsub)
  refine ⟨rfl, s₂, s₄, hsub, hcall, hpair, hfactory, hstored, ?_⟩
  rw [hlater hcall hpair hfactory, if_neg (by simp [hstored])]

end SceneCompiler.Resolver
