import SceneCompiler.Proofs.Constructor.Reusable

/-!
# Resets of the reusable expression animation

Along a run every start of the reusable animation follows a reset by the same factory.  Unless some
other factory resets the reusable animation in between, it has been rebuilt for the animation that is
bound.
-/

namespace SceneCompiler

variable {n : Nat}

def Event.NoReset (events : List (Event n)) : Prop :=
  ∀ i position, .perform i position .clearParameters ∉ events

theorem Reusable.foldl_quiet {events : List (Event n)}
    (h : ∀ event ∈ events, event.isPerform = false) (state : Reusable n) :
    events.foldl Reusable.step state = state := by
  induction events with
  | nil => rfl
  | cons event events ih =>
    have hevent := h event List.mem_cons_self
    rw [List.foldl_cons]
    cases event with
    | perform i position statement => cases hevent
    | _ => exact ih fun event hmem => h event (List.mem_cons_of_mem _ hmem)

namespace Program

variable (prog : Program n)

def bound? (r : Fin n) (position : Nat) : Option (Fin n) :=
  (prog.factories.lookup r).bind fun factory =>
    (animatorReferences (prog.plan.merge.object r).started)[
      (factory.statements.take position).countP Statement.isStart]?

/-- The last reset by a factory, and all that happens after it, rebuild the reusable animation for
what the factory binds at a position, unless a later factory resets it again. -/
def Prepares (r : Fin n) (position : Nat) (events : List (Event n)) : Prop :=
  ∃ a base q expression before reset between, prog.bound? r position = some a ∧
    prog.plan.merge.object a = .composition base (.expressionAnimation q expression) ∧
    events = before ++ .perform r reset .clearParameters :: between ∧
    (∀ i position, .perform i position .clearParameters ∈ between →
      prog.plan.Resets i ∧ prog.plan.merge.graph.index r < prog.plan.merge.graph.index i) ∧
    (Event.NoReset between → ∀ state : Reusable n,
      between.foldl Reusable.step (state.step (.perform r reset .clearParameters)) =
        state.rebuild prog.plan.merge q expression)

def Settles (events : List (Event n)) : Prop :=
  ∀ left r position target property right,
    events = left ++ .perform r position
      (.startAnimation target property (.holder .reusable)) :: right →
    prog.Prepares r position left

structure Orderly (index : Nat) (events : List (Event n)) : Prop where
  later : ∀ i position statement, .perform i position statement ∈ events →
    i ∈ prog.plan.withFactory ∧ index ≤ prog.plan.merge.graph.index i
  resets : ∀ i position, .perform i position .clearParameters ∈ events → prog.plan.Resets i
  untouched : Event.NoReset events → ∀ state : Reusable n,
    events.foldl Reusable.step state = state
  settles : prog.Settles events

variable {prog}

theorem Prepares.append {r : Fin n} {position : Nat} {events : List (Event n)}
    (h : prog.Prepares r position events) (first : List (Event n)) :
    prog.Prepares r position (first ++ events) := by
  obtain ⟨a, base, q, expression, before, reset, between, hbound, hobject, rfl, hown, hstate⟩ := h
  exact ⟨a, base, q, expression, first ++ before, reset, between, hbound, hobject, by simp, hown,
    hstate⟩

namespace Settles

theorem append {left right : List (Event n)} (hleft : prog.Settles left)
    (hright : prog.Settles right) : prog.Settles (left ++ right) := by
  intro before r position target property after hsplit
  rcases split_append hsplit with ⟨rest, hrest⟩ | ⟨middle, rfl, hrest⟩
  · exact hleft before r position target property rest hrest
  · exact (hright middle r position target property after hrest).append left

theorem of_not_start {events : List (Event n)}
    (h : ∀ r position target property,
      .perform r position (.startAnimation target property (.holder .reusable)) ∉ events) :
    prog.Settles events := by
  rintro left r position target property right rfl
  exact absurd (by simp) (h r position target property)

theorem nil : prog.Settles [] :=
  .of_not_start fun _ _ _ _ => List.not_mem_nil

theorem flatMap {α : Type} {as : List α} {f : α → List (Event n)}
    (h : ∀ a ∈ as, prog.Settles (f a)) : prog.Settles (as.flatMap f) := by
  induction as with
  | nil => exact nil
  | cons a as ih =>
    exact (h a List.mem_cons_self).append (ih fun b hb => h b (List.mem_cons_of_mem _ hb))

theorem concat {events : List (Event n)} {r : Fin n} {position : Nat} {target : Target}
    {property : String} (h : prog.Settles events) (hstart : prog.Prepares r position events) :
    prog.Settles (events ++
      [.perform r position (.startAnimation target property (.holder .reusable))]) := by
  intro before r' position' target' property' after hsplit
  rcases split_append hsplit with ⟨rest, hrest⟩ | ⟨middle, rfl, hmiddle⟩
  · exact h before r' position' target' property' rest hrest
  · cases middle with
    | nil =>
      cases hmiddle
      rwa [List.append_nil]
    | cons first middle => simp at hmiddle

end Settles

namespace Orderly

variable {index : Nat}

theorem of_quiet {events : List (Event n)} (h : ∀ event ∈ events, event.isPerform = false) :
    prog.Orderly index events := by
  refine ⟨fun i position statement hmem => ?_, fun i position hmem => ?_, fun _ state => ?_,
    .of_not_start ?_⟩
  · cases h _ hmem
  · cases h _ hmem
  · exact Reusable.foldl_quiet h state
  · intro r position target property hmem
    cases h _ hmem

theorem append {left right : List (Event n)} (hleft : prog.Orderly index left)
    (hright : prog.Orderly index right) : prog.Orderly index (left ++ right) := by
  refine ⟨fun i position statement hmem => ?_, fun i position hmem => ?_, fun hreset state => ?_,
    hleft.settles.append hright.settles⟩
  · rcases List.mem_append.mp hmem with hmem | hmem
    · exact hleft.later i position statement hmem
    · exact hright.later i position statement hmem
  · exact (List.mem_append.mp hmem).elim (hleft.resets i position) (hright.resets i position)
  · rw [List.foldl_append,
      hleft.untouched fun i position hmem => hreset i position (List.mem_append_left _ hmem),
      hright.untouched fun i position hmem => hreset i position (List.mem_append_right _ hmem)]

theorem flatMap {α : Type} {as : List α} {f : α → List (Event n)}
    (h : ∀ a ∈ as, prog.Orderly index (f a)) : prog.Orderly index (as.flatMap f) := by
  induction as with
  | nil => exact of_quiet fun event hmem => absurd hmem List.not_mem_nil
  | cons a as ih =>
    exact (h a List.mem_cons_self).append (ih fun b hb => h b (List.mem_cons_of_mem _ hb))

theorem mono {index' : Nat} {events : List (Event n)} (h : prog.Orderly index events)
    (hle : index' ≤ index) : prog.Orderly index' events :=
  ⟨fun i position statement hmem => (h.later i position statement hmem).imp id hle.trans,
    h.resets, h.untouched, h.settles⟩

end Orderly

section Perform

variable {call : Fin n → List (Event n)} {r : Fin n}

theorem perform_append (position : Nat) (ss ts : List (Statement (Reply n))) :
    prog.perform call r position (ss ++ ts) =
      prog.perform call r position ss ++ prog.perform call r (position + ss.length) ts := by
  induction ss generalizing position with
  | nil => rfl
  | cons s ss ih =>
    have hposition : position + 1 + ss.length = position + (s :: ss).length := by
      rw [List.length_cons]
      omega
    rw [List.cons_append, perform, perform, ih, hposition]
    simp

theorem mem_perform {position : Nat} {ss : List (Statement (Reply n))} {event : Event n}
    (h : event ∈ prog.perform call r position ss) :
    (∃ reply ∈ ss.flatMap Statement.references, event ∈ prog.evaluate call reply) ∨
      ∃ s ∈ ss, ∃ k, event = .perform r k s := by
  induction ss generalizing position with
  | nil => cases h
  | cons s ss ih =>
    rcases List.mem_append.mp h with hreferences | hrest
    · obtain ⟨reply, hreply, hevent⟩ := List.mem_flatMap.mp hreferences
      exact .inl ⟨reply, List.mem_append_left _ hreply, hevent⟩
    · rcases List.mem_cons.mp hrest with rfl | hrest
      · exact .inr ⟨s, List.mem_cons_self, position, rfl⟩
      · rcases ih hrest with ⟨reply, hreply, hevent⟩ | ⟨t, ht, k, hevent⟩
        · exact .inl ⟨reply, List.mem_append_right _ hreply, hevent⟩
        · exact .inr ⟨t, List.mem_cons_of_mem _ ht, k, hevent⟩

theorem evaluate_subset_perform {ss : List (Statement (Reply n))} {reply : Reply n}
    (h : reply ∈ ss.flatMap Statement.references) (position : Nat) :
    prog.evaluate call reply ⊆ prog.perform call r position ss := by
  intro event hevent
  obtain ⟨s, hs, hreply⟩ := List.mem_flatMap.mp h
  obtain ⟨left, right, rfl⟩ := List.append_of_mem hs
  rw [perform_append, perform]
  exact List.mem_append_right _
    (List.mem_append_left _ (List.mem_flatMap.mpr ⟨reply, hreply, hevent⟩))

theorem perform_mem {ss : List (Statement (Reply n))} {s : Statement (Reply n)} (h : s ∈ ss)
    (position : Nat) : ∃ k, .perform r k s ∈ prog.perform call r position ss := by
  obtain ⟨left, right, rfl⟩ := List.append_of_mem h
  refine ⟨position + left.length, ?_⟩
  rw [perform_append, perform]
  simp

theorem foldl_perform {ss : List (Statement (Reply n))}
    (h : ∀ reply ∈ ss.flatMap Statement.references, ∀ state : Reusable n,
      (prog.evaluate call reply).foldl Reusable.step state = state)
    (position : Nat) (state : Reusable n) :
    (prog.perform call r position ss).foldl Reusable.step state =
      (ss.map (Statement.map Reply.toRequest)).foldl (Reusable.perform r) state := by
  have hevaluate : ∀ replies : List (Reply n), (∀ reply ∈ replies, ∀ state : Reusable n,
      (prog.evaluate call reply).foldl Reusable.step state = state) →
      ∀ state, (replies.flatMap (prog.evaluate call)).foldl Reusable.step state = state := by
    intro replies hreplies state
    induction replies with
    | nil => rfl
    | cons reply replies ih =>
      rw [List.flatMap_cons, List.foldl_append, hreplies reply List.mem_cons_self]
      exact ih fun reply hreply => hreplies reply (List.mem_cons_of_mem _ hreply)
  induction ss generalizing position state with
  | nil => rfl
  | cons s ss ih =>
    rw [perform, List.foldl_append, List.foldl_cons, List.map_cons, List.foldl_cons,
      hevaluate _ fun reply hreply => h reply (List.mem_append_left _ hreply)]
    exact ih (fun reply hreply => h reply (List.mem_append_right _ hreply)) _ _

/-- Straight-line code of a factory has the reusable animation as it is along the run, where the
factories called leave it alone. -/
theorem shows_perform {ss : List (Statement (Reply n))}
    (h : ∀ reply ∈ ss.flatMap Statement.references, ∀ state : Reusable n,
      (prog.evaluate call reply).foldl Reusable.step state = state)
    (position : Nat) {state : Reusable n} {s s' : Scope (Request n)} (hs : s.Shows r state)
    (hrun : s.run (ss.map (Statement.map Reply.toRequest)) = some s') :
    s'.Shows r ((prog.perform call r position ss).foldl Reusable.step state) := by
  rw [foldl_perform h]
  exact hs.run hrun

theorem settles_perform_cons {s : Statement (Reply n)} {rest : List (Statement (Reply n))}
    {position : Nat}
    (hcalls : ∀ reply ∈ s.references, prog.Settles (prog.evaluate call reply))
    (hs : ∀ target property, s ≠ .startAnimation target property (.holder .reusable))
    (hrest : prog.Settles (prog.perform call r (position + 1) rest)) :
    prog.Settles (prog.perform call r position (s :: rest)) := by
  have hself : prog.Settles [.perform r position s] := by
    refine .of_not_start fun r' position' target property hmem => ?_
    cases List.mem_singleton.mp hmem
    exact hs target property rfl
  exact (Settles.flatMap hcalls).append (hself.append hrest)

variable {ss : List (Statement (Reply n))}
  (hcalls : ∀ reply ∈ ss.flatMap Statement.references,
    prog.Orderly (prog.plan.merge.graph.index r + 1) (prog.evaluate call reply))

include hcalls

theorem settles_perform_of_not_start
    (hss : ∀ s ∈ ss, ∀ target property, s ≠ .startAnimation target property (.holder .reusable))
    (position : Nat) : prog.Settles (prog.perform call r position ss) := by
  induction ss generalizing position with
  | nil => exact .nil
  | cons s ss ih =>
    exact settles_perform_cons
      (fun reply hreply => (hcalls reply (List.mem_append_left _ hreply)).settles)
      (hss s List.mem_cons_self)
      (ih (fun reply hreply => hcalls reply (List.mem_append_right _ hreply))
        (fun t ht => hss t (List.mem_cons_of_mem _ ht)) _)

theorem settles_perform_transient {top : Bool} {target : Target} {property : String} {a : Fin n}
    {base : Base (Fin n)} {q : Parameters (Fin n)} {expression : String} {position : Nat}
    (hr : prog.plan.merge.representative[r] = r)
    (hobject : prog.plan.merge.object a = .composition base (.expressionAnimation q expression))
    (hss : ss.map (Statement.map Reply.toRequest) =
      prog.plan.startTransient (Plan.ownerOf r top) target property a q expression)
    (hbound : prog.bound? r (position + (ss.length - 1)) = some a) :
    prog.Settles (prog.perform call r position ss) := by
  obtain ⟨built, rfl, hown, hrebuild⟩ := Plan.startTransient_answered hr hss
  have hbuiltCalls : ∀ reply ∈ built.flatMap Statement.references,
      prog.Orderly (prog.plan.merge.graph.index r + 1) (prog.evaluate call reply) := by
    intro reply hreply
    refine hcalls reply ?_
    rw [List.flatMap_cons, List.flatMap_append]
    exact List.mem_append_right _ (List.mem_append_left _ hreply)
  have hevents : prog.perform call r position
        (.clearParameters :: (built ++ [.startAnimation target property (.holder .reusable)])) =
      (.perform r position .clearParameters :: prog.perform call r (position + 1) built) ++
        [.perform r (position + 1 + built.length)
          (.startAnimation target property (.holder .reusable))] := by
    rw [perform, perform_append]
    rfl
  have hbuildingSettles : prog.Settles (prog.perform call r (position + 1) built) := by
    refine settles_perform_of_not_start hbuiltCalls (fun s hs target property heq => ?_) _
    have hnot := (hown s hs).2
    rw [heq] at hnot
    cases hnot
  have hresetSettles : prog.Settles [.perform r position .clearParameters] :=
    .of_not_start (by simp)
  rw [hevents]
  refine (hresetSettles.append hbuildingSettles).concat ⟨a, base, q, expression, [], position,
    prog.perform call r (position + 1) built, ?_, hobject, rfl, ?_, fun hnoReset state => ?_⟩
  · rw [← hbound, List.length_cons, List.length_append, List.length_singleton]
    congr 1
    omega
  · intro i position' hmem
    rcases mem_perform hmem with ⟨reply, hreply, hevent⟩ | ⟨s, hs, k, hevent⟩
    · exact ⟨(hbuiltCalls reply hreply).resets i position' hevent,
        ((hbuiltCalls reply hreply).later i position' _ hevent).2⟩
    · cases hevent
      exact absurd rfl (hown _ hs).1
  · rw [foldl_perform]
    · exact hrebuild state
    · intro reply hreply
      exact (hbuiltCalls reply hreply).untouched fun i k hmem =>
        hnoReset i k (evaluate_subset_perform hreply _ hmem)

theorem settles_perform_binds {as : List (Fin n)} {requested : List (Statement (Request n))}
    (hr : prog.plan.merge.representative[r] = r) (hbinds : prog.plan.Binds r as requested)
    (hss : ss.map (Statement.map Reply.toRequest) = requested) {position : Nat}
    (hbound : ∀ k, prog.bound? r (position + k) =
      as[(requested.take k).countP Statement.isStart]?) :
    prog.Settles (prog.perform call r position ss) := by
  induction hbinds generalizing ss position with
  | done =>
    cases List.map_eq_nil_iff.mp hss
    exact .nil
  | pass hs _ ih =>
    obtain ⟨s', rest, rfl, rfl, hrest⟩ := List.map_eq_cons_iff.mp hss
    have hstart := Statement.isStart_eq_false hs
    refine settles_perform_cons
      (fun reply hreply => (hcalls reply (List.mem_append_left _ hreply)).settles) ?_
      (ih (fun reply hreply => hcalls reply (List.mem_append_right _ hreply)) hrest fun k => ?_)
    · rintro target property rfl
      cases hstart
    · have hk := hbound (k + 1)
      rw [List.take_succ_cons, List.countP_cons_of_neg (by simp [hstart])] at hk
      rw [← hk, Nat.add_assoc, Nat.add_comm 1 k]
  | retained _ _ ih =>
    obtain ⟨s', rest, rfl, hmap, hrest⟩ := List.map_eq_cons_iff.mp hss
    refine settles_perform_cons
      (fun reply hreply => (hcalls reply (List.mem_append_left _ hreply)).settles) ?_
      (ih (fun reply hreply => hcalls reply (List.mem_append_right _ hreply)) hrest fun k => ?_)
    · rintro target property rfl
      cases hmap
    · have hk := hbound (k + 1)
      rw [List.take_succ_cons, List.countP_cons_of_pos rfl, List.getElem?_cons_succ] at hk
      rw [← hk, Nat.add_assoc, Nat.add_comm 1 k]
  | @transient top target property a _ q expression _ _ hobject _ _ ih =>
    obtain ⟨block, rest, rfl, hblock, hrest⟩ := List.map_eq_append_iff.mp hss
    obtain ⟨building, heq, hbuilding, _⟩ :=
      prog.plan.startTransient_eq hr top target property a q expression
    have hlength := congrArg List.length (hblock.trans heq)
    rw [List.length_map] at hlength
    have hzero : building.countP Statement.isStart = 0 :=
      List.countP_eq_zero.mpr fun s hs => by simp [(hbuilding s hs).2]
    rw [heq] at hbound
    rw [List.flatMap_append] at hcalls
    rw [perform_append]
    refine (settles_perform_transient
      (fun reply hreply => hcalls reply (List.mem_append_left _ hreply)) hr hobject hblock
      ?_).append (ih (fun reply hreply => hcalls reply (List.mem_append_right _ hreply)) hrest
        fun k => ?_)
    · rw [hbound, hlength]
      simp [hzero, Statement.isStart]
    · rw [Nat.add_assoc, hbound, hlength, List.take_length_add_append]
      simp [hzero, Statement.isStart, List.countP_cons]

theorem orderly_perform {as : List (Fin n)} {requested : List (Statement (Request n))}
    (hfactory : r ∈ prog.plan.withFactory) (hr : prog.plan.merge.representative[r] = r)
    (has : as = animatorReferences (prog.plan.merge.object r).started)
    (hbinds : prog.plan.Binds r as requested)
    (hss : ss.map (Statement.map Reply.toRequest) = requested)
    (hbound : ∀ k, prog.bound? r k = as[(requested.take k).countP Statement.isStart]?) :
    prog.Orderly (prog.plan.merge.graph.index r) (prog.perform call r 0 ss) := by
  refine ⟨fun i position statement hmem => ?_, fun i position hmem => ?_, fun hnoReset state => ?_,
    settles_perform_binds hcalls hr hbinds hss fun k => by rw [Nat.zero_add, hbound]⟩
  · rcases mem_perform hmem with ⟨reply, hreply, hevent⟩ | ⟨s, _, k, hevent⟩
    · exact ((hcalls reply hreply).later i position statement hevent).imp id (Nat.le_succ _).trans
    · cases hevent
      exact ⟨hfactory, Nat.le_refl _⟩
  · rcases mem_perform hmem with ⟨reply, hreply, hevent⟩ | ⟨s, hs, k, hevent⟩
    · exact (hcalls reply hreply).resets i position hevent
    · cases hevent
      rw [Plan.Resets, ← has]
      exact hbinds.exists_of_reset (hss ▸ List.mem_map_of_mem hs)
  · rw [foldl_perform, hss]
    · refine hbinds.foldl_eq hr (fun hmem => ?_) state
      rw [← hss] at hmem
      obtain ⟨s, hs, hclear⟩ := List.mem_map.mp hmem
      cases Statement.map_eq_clearParameters hclear
      obtain ⟨k, hk⟩ : ∃ k, .perform r k .clearParameters ∈ prog.perform call r 0 ss :=
        perform_mem hs 0
      exact hnoReset r k hk
    · intro reply hreply
      exact (hcalls reply hreply).untouched fun i k hmem =>
        hnoReset i k (evaluate_subset_perform hreply _ hmem)

end Perform

theorem evaluate_cases (prog : Program n) (reply : Reply n) :
    (∀ call, prog.evaluate call reply = [.stuck]) ∨
      (∃ i, ∀ call, prog.evaluate call reply = [.read i]) ∨
      ∃ j, ∀ call, prog.evaluate call reply = call j := by
  have hobtain (reply : Reply n) : (∀ call : Fin n → _, obtain? call reply = [.stuck]) ∨
      (∃ i, ∀ call : Fin n → _, obtain? call reply = [.read i]) ∨
      ∃ j, ∀ call : Fin n → _, obtain? call reply = call j := by
    unfold obtain?
    split
    · exact .inr (.inr ⟨reply.callee, fun call => rfl⟩)
    · exact .inr (.inl ⟨reply.callee, fun call => rfl⟩)
    · exact .inl fun call => rfl
  unfold evaluate
  split
  · split
    · exact hobtain _
    · exact .inl fun call => rfl
  · exact hobtain reply

end Program

namespace Plan.Follows

variable {p : Plan n} {m : Merge n} {construct : String} (hp : p.Follows m construct)
  {keep : Bool} (hm : m.Lawful (m.graph.atoms keep)) (hk : m.graph.Kinded)
  (hparts : m.PartsRetained) {factories : List (Fin n × Factory (Reply n))} {s : Settings}
  {made : Calls} (hrun : (p.factories s).run p.calls = .ok (factories, made))

include hp hm hk hparts hrun

theorem later_of_called {r j : Fin n} (hr : r ∈ p.withFactory) {asked : List (Request n)}
    {factory : Factory (Reply n)} (hasked : m.Asked r [] asked)
    (hanswered : Answered p s asked r factory) {reply : Reply n}
    (hreply : reply ∈ factory.references)
    (hcalled : ∀ call, Program.evaluate ⟨p, factories⟩ call reply = call j) :
    j ∈ p.withFactory ∧ m.graph.index r < m.graph.index j := by
  by_contra hnot
  have hlength := hm.ordered.length_le
  have hdepth : m.graph.order.length ≤ n + 1 + m.graph.index r := by omega
  -- calls that are not for later factories are stuck, and still mirror visits
  let call : Fin n → List (Event n) := fun k =>
    if k ∈ p.withFactory ∧ m.graph.index r < m.graph.index k then
      Event.quiet (Program.run ⟨p, factories⟩ n k)
    else [.stuck]
  have hcall : p.Mirrors m call (m.graph.index r) := by
    intro k hk' hlt depth hdepth
    simp only [call, hk', hlt, and_self, if_true]
    exact hp.quiet_run hm hk hparts hrun n hk' (by omega) hdepth
  have hstuck : .stuck ∈ factory.references.flatMap (Program.evaluate ⟨p, factories⟩ call) := by
    refine List.mem_flatMap.mpr ⟨reply, hreply, ?_⟩
    rw [hcalled]
    simp [call, hnot]
  rw [Factory.references, List.flatMap_append,
    hp.evaluate_creation hm hk hparts hr hasked hanswered hcall hdepth,
    hp.evaluate_statements hm hk hparts hr hasked hanswered hcall hdepth,
    ← List.filterMap_append] at hstuck
  obtain ⟨mark, _, hshown⟩ := List.mem_filterMap.mp hstuck
  cases mark <;> simp [shown] at hshown

theorem bound?_eq {r : Fin n} (hr : r ∈ p.withFactory) (position : Nat) :
    Program.bound? ⟨p, factories⟩ r position =
      (animatorReferences (p.merge.object r).started)[
        ((p.factory s r).statements.take position).countP Statement.isStart]? := by
  obtain ⟨factory, asked, hlookup, _, hanswered, _⟩ := hp.exists_answered hm hk hparts hrun hr
  simp only [Program.bound?, hlookup, Option.bind_some]
  rw [← hanswered.same, ← List.map_take, List.countP_map]
  congr 2
  funext statement
  exact (statement.isStart_map (f := Reply.toRequest)).symm

theorem exists_perform {r : Fin n} (hr : r ∈ p.withFactory) (depth : Nat)
    {before after : List (Statement (Request n))} {statement : Statement (Request n)}
    (hstatements : (p.factory s r).statements = before ++ statement :: after) :
    ∃ left performed right, Program.run ⟨p, factories⟩ (depth + 1) r =
        left ++ .perform r before.length performed :: right ∧
      performed.map Reply.toRequest = statement ∧
      ∀ t ∈ before, ∃ position t', .perform r position t' ∈ left ∧
        t'.map Reply.toRequest = t := by
  obtain ⟨factory, asked, hlookup, _, hanswered, _⟩ := hp.exists_answered hm hk hparts hrun hr
  have hsame := hanswered.same
  rw [hstatements] at hsame
  obtain ⟨first, rest, hsplit, rfl, hrest⟩ := List.map_eq_append_iff.mp hsame
  obtain ⟨performed, last, rfl, hperformed, _⟩ := List.map_eq_cons_iff.mp hrest
  have hrunEq : ∃ created, Program.run ⟨p, factories⟩ (depth + 1) r = created ++
      Program.perform ⟨p, factories⟩ (Program.run ⟨p, factories⟩ depth) r 0 factory.statements := by
    rw [Program.run, hlookup]
    exact ⟨.enter r :: _, rfl⟩
  obtain ⟨created, hcreated⟩ := hrunEq
  rw [hsplit, Program.perform_append, Program.perform, Nat.zero_add] at hcreated
  refine ⟨created ++ Program.perform ⟨p, factories⟩ (Program.run ⟨p, factories⟩ depth) r 0 first ++
    performed.references.flatMap (Program.evaluate ⟨p, factories⟩
      (Program.run ⟨p, factories⟩ depth)), performed,
    Program.perform ⟨p, factories⟩ (Program.run ⟨p, factories⟩ depth) r (first.length + 1) last,
    ?_, hperformed, ?_⟩
  · rw [hcreated, List.length_map]
    simp only [List.append_assoc]
  · intro t ht
    obtain ⟨t', ht', rfl⟩ := List.mem_map.mp ht
    obtain ⟨position, hposition⟩ : ∃ position, .perform r position t' ∈
        Program.perform ⟨p, factories⟩ (Program.run ⟨p, factories⟩ depth) r 0 first :=
      Program.perform_mem ht' 0
    exact ⟨position, t', List.mem_append_left _ (List.mem_append_right _ hposition), rfl⟩

theorem orderly_run (depth : Nat) {r : Fin n} (hr : r ∈ p.withFactory) :
    Program.Orderly ⟨p, factories⟩ (m.graph.index r) (Program.run ⟨p, factories⟩ depth r) := by
  have hmerge := hp.merge
  subst hmerge
  induction depth generalizing r with
  | zero => exact .of_quiet (by simp [Program.run, Event.isPerform])
  | succ depth ih =>
    obtain ⟨factory, asked, hlookup, hasked, hanswered, _⟩ :=
      hp.exists_answered hm hk hparts hrun hr
    have hcalls : ∀ reply ∈ factory.references,
        Program.Orderly ⟨p, factories⟩ (p.merge.graph.index r + 1)
          (Program.evaluate ⟨p, factories⟩ (Program.run ⟨p, factories⟩ depth) reply) := by
      intro reply hreply
      rcases Program.evaluate_cases ⟨p, factories⟩ reply with heq | ⟨i, heq⟩ | ⟨j, heq⟩
      · rw [heq]
        exact .of_quiet (by simp [Event.isPerform])
      · rw [heq]
        exact .of_quiet (by simp [Event.isPerform])
      · obtain ⟨hj, hlt⟩ :=
          hp.later_of_called hm hk hparts hrun hr hasked hanswered hreply heq
        rw [heq]
        exact (ih hj).mono hlt
    have hperform : Program.Orderly ⟨p, factories⟩ (p.merge.graph.index r)
        (Program.perform ⟨p, factories⟩ (Program.run ⟨p, factories⟩ depth) r 0
          factory.statements) := Program.orderly_perform
      (fun reply hreply => hcalls reply (List.mem_append_right _ hreply)) hr
      (Merge.mem_representatives.mp (hp.mem_withFactory.mp hr).1).2 rfl (p.binds_factory s r)
      hanswered.same (hp.bound?_eq hm hk hparts hrun hr)
    have hcreation : Program.Orderly ⟨p, factories⟩ (p.merge.graph.index r)
        (factory.creation.references.flatMap (Program.evaluate ⟨p, factories⟩
          (Program.run ⟨p, factories⟩ depth))) :=
      .flatMap fun reply hreply =>
        (hcalls reply (List.mem_append_left _ hreply)).mono (Nat.le_succ _)
    have henter : Program.Orderly ⟨p, factories⟩ (p.merge.graph.index r) [.enter r] :=
      .of_quiet (by simp [Event.isPerform])
    have hassign : Program.Orderly ⟨p, factories⟩ (p.merge.graph.index r)
        (if p.sites[r].stored then [.assign r] else []) :=
      .of_quiet (by split <;> simp [Event.isPerform])
    rw [Program.run, hlookup]
    exact henter.append ((hcreation.append hassign).append hperform)

end Plan.Follows

end SceneCompiler
