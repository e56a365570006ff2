import SceneCompiler.Proofs.Constructor.Refusals
import SceneCompiler.Proofs.Constructor.Visit

/-!
# Running the constructor

Where no request is refused, running the constructor is visiting the root of the merged graph.  What
shows of a visit are the objects with factories and the reads of fields: a transient animation is
visited by the factory that starts it, a path written inline by the factory that uses it.
-/

namespace SceneCompiler

variable {n : Nat}

def Event.isPerform : Event n → Bool
  | .perform _ _ _ => true
  | _ => false

def Event.quiet (events : List (Event n)) : List (Event n) :=
  events.filter fun event => !event.isPerform

namespace Program

variable {prog : Program n} {call : Fin n → List (Event n)}

theorem quiet_evaluate (reply : Reply n) :
    Event.quiet (prog.evaluate call reply) =
      prog.evaluate (fun j => Event.quiet (call j)) reply := by
  have hobtain : ∀ reply : Reply n, Event.quiet (obtain? call reply) =
      obtain? (fun j => Event.quiet (call j)) reply := by
    intro reply
    unfold obtain?
    split <;> rfl
  unfold evaluate
  split
  · split
    · exact hobtain _
    · rfl
  · exact hobtain _

theorem quiet_flatMap_evaluate (replies : List (Reply n)) :
    Event.quiet (replies.flatMap (prog.evaluate call)) =
      replies.flatMap (prog.evaluate fun j => Event.quiet (call j)) := by
  rw [Event.quiet, List.filter_flatMap]
  exact List.flatMap_congr fun reply _ => quiet_evaluate reply

theorem quiet_perform (i : Fin n) (position : Nat) (statements : List (Statement (Reply n))) :
    Event.quiet (prog.perform call i position statements) =
      (statements.flatMap Statement.references).flatMap
        (prog.evaluate fun j => Event.quiet (call j)) := by
  induction statements generalizing position with
  | nil => rfl
  | cons statement statements ih =>
    rw [perform, Event.quiet, List.filter_append, List.flatMap_cons, List.flatMap_append, ← ih,
      ← quiet_flatMap_evaluate]
    rfl

theorem quiet_run_succ {depth : Nat} {i : Fin n} {factory : Factory (Reply n)}
    (h : prog.factories.lookup i = some factory) :
    Event.quiet (prog.run (depth + 1) i) =
      .enter i :: (factory.creation.references.flatMap
          (prog.evaluate fun j => Event.quiet (prog.run depth j)) ++
        (if prog.plan.sites[i].stored then [.assign i] else []) ++
        (factory.statements.flatMap Statement.references).flatMap
          (prog.evaluate fun j => Event.quiet (prog.run depth j))) := by
  rw [← quiet_flatMap_evaluate, ← quiet_perform i 0 factory.statements, run, h]
  have hstored : Event.quiet (if prog.plan.sites[i].stored then [.assign i] else []) =
      if prog.plan.sites[i].stored then [.assign i] else [] := by
    split <;> rfl
  simp only [Event.quiet] at hstored ⊢
  rw [List.filter_cons_of_pos (by rfl), List.filter_append, List.filter_append, hstored]

end Program

def Plan.shown (p : Plan n) (m : Merge n) : Mark n → Option (Event n)
  | .enter i => if i ∈ p.withFactory then some (.enter i) else none
  | .create i => if i ∈ p.withFactory ∧ p.sites[i].stored = true then some (.assign i) else none
  | .read i j => if m.isAtHand i j then none else some (.read j)

/-- Calls for the factories after a certain index show what visits show, if these go deep enough. -/
def Plan.Mirrors (p : Plan n) (m : Merge n) (call : Fin n → List (Event n)) (index : Nat) : Prop :=
  ∀ j ∈ p.withFactory, index < m.graph.index j → ∀ depth,
    m.graph.order.length ≤ depth + m.graph.index j →
      call j = (m.visit depth j).filterMap (p.shown m)

namespace Merge

variable {m : Merge n}

theorem exists_path {j : Fin n} (h : m.inlines j = true) :
    ∃ description source, m.object j = .path description source := by
  by_contra hnone
  rw [m.not_inlines fun description source hobject => hnone ⟨description, source, hobject⟩] at h
  cases h

theorem length_inReferences_of_inlines {j : Fin n} (h : m.inlines j = true) :
    (m.inReferences j).length ≤ 1 := by
  obtain ⟨description, source, hobject⟩ := exists_path h
  have hcounted : m.counted j = m.inReferences j := by simp [counted, hobject, Object.animators]
  simp only [inlines, Bool.and_eq_true, decide_eq_true_eq, hcounted] at h
  exact h.2

variable {keep : Bool} (hm : m.Lawful (m.graph.atoms keep)) (hk : m.graph.Kinded)

include hm hk

theorem once_of_inlines {i j : Fin n} (hinlines : m.inlines j = true) (hi : i ∈ m.representatives)
    (hij : j ∈ m.targets i) :
    m.graph.index i < m.graph.index j ∧ (m.targets i).count j ≤ 1 := by
  obtain ⟨description, source, hobject⟩ := exists_path hinlines
  have hlength := length_inReferences_of_inlines hinlines
  have hmem : i ∈ m.inReferences j := mem_inReferences.mpr ⟨hi, hij⟩
  have hj := hm.targets_subset (mem_representatives.mp hi).1 hij
  have hroot : j ≠ m.graph.root := by
    rintro rfl
    have hvisual := hk.root
    change (m.object m.graph.root).isVisual = true at hvisual
    rw [hobject] at hvisual
    cases hvisual
  refine ⟨?_, ?_⟩
  · obtain ⟨u, hu, huj, hlt⟩ := hm.exists_earlier_referencer hj hroot
    obtain ⟨x, hx⟩ := List.length_eq_one_iff.mp
      (Nat.le_antisymm hlength (List.length_pos_of_mem hmem))
    have hu' : u ∈ m.inReferences j := mem_inReferences.mpr ⟨hu, huj⟩
    rw [hx, List.mem_singleton] at hmem hu'
    rwa [hmem, ← hu']
  · rw [← count_inReferences hm.nodup_representatives hi]
    exact List.count_le_length.trans hlength

end Merge

/-- Of the requests `asked`, those for an object and the transient animations that it starts are for
its targets `before`. -/
structure Merge.Asked (m : Merge n) (r : Fin n) (before : List (Fin n))
    (asked : List (Request n)) : Prop where
  own : ∀ k, m.transient k = false → (k ∈ before ↔ (⟨r, k⟩ : Request n) ∈ asked)
  fresh : ∀ e ∈ m.targets r, m.transient e = true → e ∉ before → ∀ q ∈ asked, q.caller ≠ e

namespace Merge.Asked

variable {m : Merge n} {r : Fin n}

theorem concat {before : List (Fin n)} {asked : List (Request n)} (h : m.Asked r before asked)
    (hr : m.transient r = false) (j : Fin n) :
    m.Asked r (before ++ [j]) (asked ++ m.leg r j) := by
  have hcallers : ∀ q ∈ m.leg r j, if m.transient j then q.caller = j else q = ⟨r, j⟩ := by
    intro q hq
    unfold leg at hq
    split at hq
    · rename_i htransient
      obtain ⟨k, _, rfl⟩ := List.mem_map.mp hq
      simp [htransient]
    · rename_i htransient
      simpa [htransient] using hq
  refine ⟨fun k hk => ?_, fun e he htransient hnew q hq => ?_⟩
  · rw [List.mem_append, List.mem_append, h.own k hk, List.mem_singleton]
    refine or_congr_right ⟨?_, fun hq => ?_⟩
    · rintro rfl
      simp [leg, hk]
    · have hcaller := hcallers _ hq
      split at hcaller
      · rename_i htransient
        rw [← hcaller, hr] at htransient
        cases htransient
      · exact (Request.mk.inj hcaller).2
  · rw [List.mem_append, List.mem_singleton, not_or] at hnew
    rcases List.mem_append.mp hq with hold | hleg
    · exact h.fresh e he htransient hnew.1 q hold
    · have hcaller := hcallers _ hleg
      split at hcaller
      · rw [hcaller]
        exact Ne.symm hnew.2
      · rw [hcaller]
        rintro rfl
        rw [hr] at htransient
        cases htransient

theorem append (js : List (Fin n)) {before : List (Fin n)} {asked : List (Request n)}
    (h : m.Asked r before asked) (hr : m.transient r = false) :
    m.Asked r (before ++ js) (asked ++ js.flatMap (m.leg r)) := by
  induction js generalizing before asked with
  | nil => simpa using h
  | cons j js ih => simpa using ih (h.concat hr j)

end Merge.Asked

namespace Plan.Follows

variable {p : Plan n} {m : Merge n} {construct : String} (hp : p.Follows m construct)
  {keep : Bool} (hm : m.Lawful (m.graph.atoms keep)) (hk : m.graph.Kinded)

include hp

theorem isCall_eq_visits {asked : List (Request n)} {i j : Fin n} {before : List (Fin n)}
    (hj : j ∈ m.representatives) (hinlines : m.inlines j = false)
    (hasked : j ∈ before ↔ (⟨i, j⟩ : Request n) ∈ asked) :
    p.isCall asked ⟨i, j⟩ = m.visits i before j := by
  have hinline : p.sites[j].inline = none := by
    rw [← Option.not_isSome_iff_eq_none, hp.inline _ hj, hinlines]
    exact Bool.false_ne_true
  have hcaller := hp.index i
  have hcallee := hp.index j
  simp only [isCall, Site.calls, hinline, hcaller, hcallee, Merge.visits, Option.isNone_none,
    Bool.true_and]
  congr 2
  rw [Bool.eq_iff_iff]
  simpa using hasked.symm

theorem accessOf_eq {asked : List (Request n)} {i j : Fin n} (hj : j ∈ m.representatives)
    (hinlines : m.inlines j = false) :
    p.accessOf asked ⟨i, j⟩ =
      if p.isCall asked ⟨i, j⟩ then .factoryCall p.sites[j].factoryCall
      else .field p.sites[j].fieldName := by
  have hinline : p.sites[j].inline = none := by
    rw [← Option.not_isSome_iff_eq_none, hp.inline _ hj, hinlines]
    exact Bool.false_ne_true
  simp only [accessOf, Site.accessOf, hinline, isCall]
  rfl

theorem obtain?_eq_step {i j : Fin n} {asked : List (Request n)} {before : List (Fin n)}
    {call : Fin n → List (Event n)} {depth : Nat} (hj : j ∈ p.withFactory)
    (hhand : m.isAtHand i j = false) (hasked : j ∈ before ↔ (⟨i, j⟩ : Request n) ∈ asked)
    (hcall : p.Mirrors m call (m.graph.index i))
    (hdepth : m.graph.order.length ≤ depth + 1 + m.graph.index i) :
    Program.obtain? call ⟨⟨i, j⟩, p.accessOf asked ⟨i, j⟩⟩ =
      (m.step (m.visit depth) i before j).filterMap (p.shown m) := by
  obtain ⟨hrep, _, hinlines⟩ := hp.mem_withFactory.mp hj
  rw [hp.accessOf_eq hrep hinlines, hp.isCall_eq_visits hrep hinlines hasked]
  unfold Merge.step
  cases hvisits : m.visits i before j with
  | false => simp [Program.obtain?, shown, hhand]
  | true =>
    have hlt : m.graph.index i < m.graph.index j := by
      simp only [Merge.visits, Bool.and_eq_true, decide_eq_true_eq] at hvisits
      exact hvisits.1
    exact hcall j hj hlt depth (by omega)

include hm hk

theorem inlined?_eq {j : Fin n} (hj : j ∈ m.representatives) (hinlines : m.inlines j = true) :
    ∃ source ∈ p.withFactory, m.targets j = [source] ∧ (m.object j).arity = 1 ∧
      p.inlined? j = some ⟨⟨j, source⟩, p.accessOf [] ⟨j, source⟩⟩ ∧
      p.sites[j].inline = some (construct ++ " CompositionPath(" ++
        (p.accessOf [] ⟨j, source⟩).text ++ ")") := by
  obtain ⟨text, htext⟩ := Option.isSome_iff_exists.mp ((hp.inline j hj).trans hinlines)
  obtain ⟨source, hsource, hrefusal, hspelled⟩ := hp.text j hj text htext
  obtain ⟨_, hrep, _, _, _, hcanvas⟩ := Merge.source_representative hm hk hj hsource
  obtain ⟨description, given, hobject⟩ := Merge.exists_path hinlines
  rw [hobject] at hsource
  cases hsource
  have hrequest := hp.request_eq j source
  refine ⟨m.representative[source], ?_, ?_, ?_, ?_, htext.trans (congrArg some hspelled)⟩
  · refine hp.mem_withFactory.mpr ⟨hrep, ?_, m.not_inlines fun description source hpath => ?_⟩
    · simp only [Merge.transient, Merge.isTransient, hcanvas, Object.isExpressionAnimation,
        Bool.false_and]
    · rw [hcanvas] at hpath
      cases hpath
  · change (m.object j).references.map _ = _
    rw [hobject]
    rfl
  · rw [hobject]
    rfl
  · have hrecalls : p.Recalls [⟨j, m.representative[source]⟩] [] [] := fun _ _ _ =>
      ⟨fun h => absurd h List.not_mem_nil, fun h => absurd h List.not_mem_nil⟩
    have hreply := reply_run_eq (List.mem_singleton_self _) hrecalls
    rw [show p.refusal [] ⟨j, m.representative[source]⟩ = none from hrefusal] at hreply
    have hmerge := hp.merge
    unfold inlined?
    rw [hmerge, hobject]
    simp only [hrequest, hreply]
    rfl

variable {factories : List (Fin n × Factory (Reply n))} {call : Fin n → List (Event n)}

theorem evaluate_eq_step {i j : Fin n} {asked : List (Request n)} {before after : List (Fin n)}
    {depth : Nat} (hi : i ∈ m.representatives) (htargets : m.targets i = before ++ j :: after)
    (hretained : m.transient j = false) (hhand : m.isAtHand i j = false)
    (hasked : j ∈ before ↔ (⟨i, j⟩ : Request n) ∈ asked)
    (hcall : p.Mirrors m call (m.graph.index i))
    (hdepth : m.graph.order.length ≤ depth + 1 + m.graph.index i) :
    Program.evaluate ⟨p, factories⟩ call ⟨⟨i, j⟩, p.accessOf asked ⟨i, j⟩⟩ =
      (m.step (m.visit depth) i before j).filterMap (p.shown m) := by
  have hmem : j ∈ m.targets i := by simp [htargets]
  have hj := hm.targets_subset (Merge.mem_representatives.mp hi).1 hmem
  have hjindex : m.graph.index j < m.graph.order.length :=
    List.idxOf_lt_length_of_mem (Merge.mem_representatives.mp hj).1
  cases hinlines : m.inlines j with
  | false =>
    have hfactory := hp.mem_withFactory.mpr ⟨hj, hretained, hinlines⟩
    rw [← hp.obtain?_eq_step hfactory hhand hasked hcall hdepth]
    unfold Program.evaluate
    rw [hp.accessOf_eq hj hinlines]
    cases p.isCall asked ⟨i, j⟩ <;> rfl
  | true =>
    -- a path written inline is visited by the object that uses it
    obtain ⟨hlt, hcount⟩ := Merge.once_of_inlines hm hk hinlines hi hmem
    obtain ⟨source, hsource, hsources, harity, hinlined, htext⟩ :=
      hp.inlined?_eq hm hk hj hinlines
    have hnew : j ∉ before := by
      intro hbefore
      have hpos := List.count_pos_iff.mpr hbefore
      rw [htargets, List.count_append, List.count_cons_self] at hcount
      omega
    have haccess : p.accessOf asked ⟨i, j⟩ = .inline (construct ++ " CompositionPath(" ++
        (p.accessOf [] ⟨j, source⟩).text ++ ")") := by
      rw [accessOf, Site.accessOf, htext]
    have hnot : j ∉ p.withFactory := by
      intro hfactory
      rw [(hp.mem_withFactory.mp hfactory).2.2] at hinlines
      cases hinlines
    obtain ⟨depth, rfl⟩ : ∃ d, depth = d + 1 := ⟨depth - 1, by omega⟩
    have hstep : Program.obtain? call ⟨⟨j, source⟩, p.accessOf [] ⟨j, source⟩⟩ =
        (m.step (m.visit depth) j [] source).filterMap (p.shown m) :=
      hp.obtain?_eq_step hsource (by simp [Merge.isAtHand, hretained]) (by simp)
        (fun k hk hlt' => hcall k hk (by omega)) (by omega)
    simp only [Program.evaluate, haccess, hinlined, hstep]
    simp [Merge.step, Merge.visits, Merge.visit, Merge.follow, hlt, hnew, hsources, harity, shown,
      hnot]

theorem evaluate_eq_follow_transient (hparts : m.PartsRetained) {e : Fin n} {depth : Nat}
    (he : e ∈ m.representatives) (htransient : m.transient e = true)
    (hcall : p.Mirrors m call (m.graph.index e))
    (hdepth : m.graph.order.length ≤ depth + 1 + m.graph.index e) (ks : List (Fin n))
    {asked : List (Request n)} {before : List (Fin n)} (htargets : m.targets e = before ++ ks)
    (hasked : ∀ k, m.isAtHand e k = false → (k ∈ before ↔ (⟨e, k⟩ : Request n) ∈ asked)) :
    (p.replies asked ((ks.filter fun k => !m.isAtHand e k).map (Request.mk e))).flatMap
        (Program.evaluate ⟨p, factories⟩ call) =
      (m.follow (m.visit depth) e before ks).filterMap (p.shown m) := by
  induction ks generalizing asked before with
  | nil => rfl
  | cons k ks ih =>
    have hmem : k ∈ m.targets e := by simp [htargets]
    have hrest : m.targets e = (before ++ [k]) ++ ks := by simp [htargets]
    rw [Merge.follow, List.filterMap_append]
    cases hhand : m.isAtHand e k with
    | true =>
      have hvisits : m.visits e before k = false := by
        have hlt := Merge.index_lt_of_isAtHand hm hk hparts he
          (hm.targets_subset (Merge.mem_representatives.mp he).1 hmem) hhand
        simp [Merge.visits, Nat.lt_asymm hlt]
      have hasked' : ∀ k', m.isAtHand e k' = false →
          (k' ∈ before ++ [k] ↔ (⟨e, k'⟩ : Request n) ∈ asked) := by
        intro k' hk'
        rw [← hasked k' hk', List.mem_append, List.mem_singleton]
        refine or_iff_left_of_imp ?_
        rintro rfl
        rw [hhand] at hk'
        cases hk'
      rw [← ih hrest hasked']
      simp [hhand, Merge.step, hvisits, shown]
    | false =>
      have hasked' : ∀ k', m.isAtHand e k' = false →
          (k' ∈ before ++ [k] ↔ (⟨e, k'⟩ : Request n) ∈ asked ++ [⟨e, k⟩]) := by
        intro k' hk'
        simp only [List.mem_append, List.mem_singleton, hasked k' hk', Request.mk.injEq,
          true_and]
      have hstep : Program.evaluate ⟨p, factories⟩ call ⟨⟨e, k⟩, p.accessOf asked ⟨e, k⟩⟩ = _ :=
        hp.evaluate_eq_step hm hk he htargets
          (Merge.retained_of_mem_targets hparts he htransient hmem) hhand (hasked k hhand) hcall
          hdepth
      rw [← hstep, ← ih hrest hasked']
      simp only [List.filter_cons, hhand, Bool.not_false, if_true, List.map_cons, replies,
        List.flatMap_cons]

theorem evaluate_eq_follow (hparts : m.PartsRetained) {r : Fin n} {depth : Nat}
    (hr : r ∈ p.withFactory) (hcall : p.Mirrors m call (m.graph.index r))
    (hdepth : m.graph.order.length ≤ depth + 1 + m.graph.index r) (js : List (Fin n))
    {asked : List (Request n)} {before after : List (Fin n)}
    (htargets : m.targets r = before ++ js ++ after) (hasked : m.Asked r before asked) :
    (p.replies asked (js.flatMap (m.leg r))).flatMap (Program.evaluate ⟨p, factories⟩ call) =
      (m.follow (m.visit depth) r before js).filterMap (p.shown m) := by
  obtain ⟨hmem, hretained, _⟩ := hp.mem_withFactory.mp hr
  induction js generalizing asked before with
  | nil => rfl
  | cons j js ih =>
    have hj : j ∈ m.targets r := by simp [htargets]
    have hsplit : m.targets r = before ++ j :: (js ++ after) := by simp [htargets]
    have hih := ih (by simp [htargets]) (hasked.concat hretained j)
    rw [Merge.follow, List.filterMap_append, ← hih, List.flatMap_cons, replies_append,
      List.flatMap_append]
    congr 1
    cases htransient : m.transient j with
    | false =>
      have hstep : Program.evaluate ⟨p, factories⟩ call ⟨⟨r, j⟩, p.accessOf asked ⟨r, j⟩⟩ = _ :=
        hp.evaluate_eq_step hm hk hmem hsplit htransient
          (by simp [Merge.isAtHand, hretained]) (hasked.own j htransient) hcall hdepth
      rw [← hstep]
      simp [Merge.leg, htransient, replies]
    | true =>
      -- the only reference to a transient animation is the one by which it is visited
      have hjmem := hm.targets_subset (Merge.mem_representatives.mp hmem).1 hj
      have hjindex : m.graph.index j < m.graph.order.length :=
        List.idxOf_lt_length_of_mem (Merge.mem_representatives.mp hjmem).1
      obtain ⟨w, hw⟩ := Merge.exists_binder hm hk hparts hjmem htransient
      have hlt : m.graph.index r < m.graph.index j := by
        rw [hw.eq_of_mem_targets hmem hj]
        exact hw.index_lt
      have hnew : j ∉ before := by
        intro hbefore
        have hpos := List.count_pos_iff.mpr hbefore
        have hcount := Merge.count_inReferences hm.nodup_representatives hmem j
        have hle := List.count_le_length (a := r) (l := m.inReferences j)
        rw [hw.inReferences] at hle
        rw [hw.inReferences, hsplit, List.count_append, List.count_cons_self] at hcount
        simp only [List.length_cons, List.length_nil] at hle
        omega
      obtain ⟨depth, rfl⟩ : ∃ d, depth = d + 1 := ⟨depth - 1, by omega⟩
      have hnot : j ∉ p.withFactory := by
        intro hfactory
        rw [(hp.mem_withFactory.mp hfactory).2.1] at htransient
        cases htransient
      have harity : (m.object j).arity = 0 :=
        Object.arity_of_isExpressionAnimation (Merge.transient_spec htransient).1
      have hleg : (p.replies asked (((m.targets j).filter fun k => !m.isAtHand j k).map
          (Request.mk j))).flatMap (Program.evaluate ⟨p, factories⟩ call) =
          (m.follow (m.visit depth) j [] (m.targets j)).filterMap (p.shown m) := by
        refine hp.evaluate_eq_follow_transient hm hk hparts hjmem htransient
          (fun k hk hlt' => hcall k hk (by omega)) (by omega) _ rfl fun k hk => ?_
        refine ⟨fun h => absurd h List.not_mem_nil, fun h => ?_⟩
        exact absurd rfl (hasked.fresh j hj htransient hnew _ h)
      rw [Merge.leg, if_pos htransient, hleg]
      simp [Merge.step, Merge.visits, Merge.visit, Merge.follow, hlt, hnew, harity, shown, hnot]

omit hm hk in
theorem partRequests_eq_legs (hparts : m.PartsRetained) {r : Fin n} (hr : r ∈ m.representatives)
    {parts : List (Demand × Fin n)} (hsub : parts ⊆ (m.object r).parts) :
    p.partRequests r parts = (parts.map fun part => m.representative[part.2]).flatMap (m.leg r) := by
  have hsingle : ∀ part ∈ parts, m.leg r m.representative[part.2] = [p.request r part.2] := by
    intro part hpart
    rw [Merge.leg, hparts r hr part (hsub hpart), hp.request_eq]
    rfl
  rw [partRequests, List.flatMap_map, List.flatMap_congr hsingle, ← List.map_eq_flatMap]

omit hm hk in
theorem creation_eq_legs (hparts : m.PartsRetained) (s : Settings) {r : Fin n}
    (hr : r ∈ m.representatives) :
    (p.factory s r).creation.references =
      ((m.targets r).take (m.object r).arity).flatMap (m.leg r) := by
  have hmerge := hp.merge
  rw [creation_references, hmerge, hp.partRequests_eq_legs hparts hr (List.take_subset _ _),
    Merge.take_targets]

omit hk in
theorem statements_eq_legs (hparts : m.PartsRetained) (s : Settings) {r : Fin n}
    (hr : r ∈ m.representatives) :
    (p.factory s r).statements.flatMap Statement.references =
      ((m.targets r).drop (m.object r).arity).flatMap (m.leg r) := by
  have hmerge := hp.merge
  rw [statements_references, hmerge, hp.bindings_eq_legs hm hr,
    hp.partRequests_eq_legs hparts hr (List.drop_subset _ _), Merge.drop_targets,
    List.flatMap_append]

theorem asked_emission (hparts : m.PartsRetained) (s : Settings) {r : Fin n}
    {earlier : List (Fin n)} (hr : r ∈ p.withFactory) (hsub : earlier ⊆ p.withFactory)
    (hnew : r ∉ earlier) : m.Asked r [] (p.emission s earlier) := by
  obtain ⟨hmem, hretained, _⟩ := hp.mem_withFactory.mp hr
  refine ⟨fun k _ => ⟨fun h => absurd h List.not_mem_nil, fun hq => ?_⟩,
    fun e he htransient _ q hq hcaller => ?_⟩
  · obtain ⟨r', hr', hq⟩ := List.mem_flatMap.mp hq
    rcases hp.mem_references hm (hp.mem_withFactory.mp (hsub hr')).1 hq with ⟨rfl, _⟩ | ⟨h, _⟩
    · exact absurd hr' hnew
    · rw [hretained] at h
      cases h
  · obtain ⟨r', hr', hq⟩ := List.mem_flatMap.mp hq
    obtain ⟨hmem', hretained', _⟩ := hp.mem_withFactory.mp (hsub hr')
    have hemem := hm.targets_subset (Merge.mem_representatives.mp hmem).1 he
    obtain ⟨w, hw⟩ := Merge.exists_binder hm hk hparts hemem htransient
    rcases hp.mem_references hm hmem' hq with ⟨hown, _⟩ | ⟨_, _, hstarted, _⟩
    · rw [← hcaller, hown, hretained'] at htransient
      cases htransient
    · rw [hcaller] at hstarted
      have he' : e ∈ m.targets r' := by
        rw [Merge.targets_eq_append]
        exact List.mem_append_right _ (List.mem_map.mpr
          ⟨e, hstarted, (Merge.mem_representatives.mp hemem).2⟩)
      rw [hw.eq_of_mem_targets hmem he, ← hw.eq_of_mem_targets hmem' he'] at hnew
      exact hnew hr'

theorem exists_answered (hparts : m.PartsRetained) {s : Settings} {made : Calls}
    (hrun : (p.factories s).run p.calls = .ok (factories, made)) {r : Fin n}
    (hr : r ∈ p.withFactory) :
    ∃ factory asked, factories.lookup r = some factory ∧ m.Asked r [] asked ∧
      Answered p s asked r factory ∧
      p.firstRefusal asked (p.factory s r).references = none := by
  have hnone : p.firstRefusal [] (p.emission s p.withFactory) = none := by
    cases hrefusal : p.firstRefusal [] (p.emission s p.withFactory) with
    | none => rfl
    | some fault =>
      rw [factories_error (hp.emission_inj hm s) (List.Subset.refl _) (hp.recalls_nil hm s)
        hrefusal] at hrun
      cases hrun
  obtain ⟨hfst, hall⟩ := factories_answered (hp.emission_inj hm s) (List.Subset.refl _)
    (hp.recalls_nil hm s) hrun
  cases hlookup : factories.lookup r with
  | none =>
    rw [← hfst] at hr
    obtain ⟨entry, hentry, hfirst⟩ := List.mem_map.mp hr
    have hne := List.lookup_eq_none_iff.mp hlookup entry hentry
    simp [hfirst] at hne
  | some factory =>
    obtain ⟨before, after, hsplit, _⟩ := List.lookup_eq_some_iff.mp hlookup
    obtain ⟨earlier, later, hwith, hanswered⟩ := hall (r, factory) (by simp [hsplit])
    have hnodup := hp.nodup_withFactory hm.nodup_representatives
    rw [hwith] at hnodup
    rw [hwith, emission, List.flatMap_append, List.flatMap_cons, firstRefusal_append,
      firstRefusal_append, Option.or_eq_none_iff, Option.or_eq_none_iff] at hnone
    refine ⟨factory, _, rfl, hp.asked_emission hm hk hparts s hr ?_ ?_, hanswered, hnone.2.1⟩
    · rw [hwith]
      exact List.subset_append_left _ _
    · intro hmem
      exact (List.nodup_append.mp hnodup).2.2 r hmem r List.mem_cons_self rfl

omit hk in
theorem lookup_eq_none {s : Settings} {made : Calls}
    (hrun : (p.factories s).run p.calls = .ok (factories, made)) {i : Fin n}
    (hi : i ∉ p.withFactory) : factories.lookup i = none := by
  obtain ⟨hfst, _⟩ := factories_answered (hp.emission_inj hm s) (List.Subset.refl _)
    (hp.recalls_nil hm s) hrun
  refine List.lookup_eq_none_iff.mpr fun entry hentry => ?_
  rw [bne_iff_ne]
  rintro rfl
  exact hi (hfst ▸ List.mem_map_of_mem hentry)

section Answered

variable (hparts : m.PartsRetained) {s : Settings} {r : Fin n} (hr : r ∈ p.withFactory)
  {asked : List (Request n)} {factory : Factory (Reply n)} (hasked : m.Asked r [] asked)
  (hanswered : Answered p s asked r factory) (hcall : p.Mirrors m call (m.graph.index r))
  {depth : Nat} (hdepth : m.graph.order.length ≤ depth + 1 + m.graph.index r)

include hparts hr hasked hanswered hcall hdepth

theorem evaluate_creation :
    factory.creation.references.flatMap (Program.evaluate ⟨p, factories⟩ call) =
      (m.follow (m.visit depth) r [] ((m.targets r).take (m.object r).arity)).filterMap
        (p.shown m) := by
  rw [hanswered.creation, hp.creation_eq_legs hparts s (hp.mem_withFactory.mp hr).1]
  exact hp.evaluate_eq_follow hm hk hparts hr hcall hdepth _
    (List.take_append_drop (m.object r).arity (m.targets r)).symm hasked

theorem evaluate_statements :
    (factory.statements.flatMap Statement.references).flatMap
        (Program.evaluate ⟨p, factories⟩ call) =
      (m.follow (m.visit depth) r ((m.targets r).take (m.object r).arity)
        ((m.targets r).drop (m.object r).arity)).filterMap (p.shown m) := by
  obtain ⟨hmem, hretained, _⟩ := hp.mem_withFactory.mp hr
  rw [hanswered.statements, hp.creation_eq_legs hparts s hmem, hp.statements_eq_legs hm hparts s hmem]
  have htargets : m.targets r = [] ++ (m.targets r).take (m.object r).arity ++
      (m.targets r).drop (m.object r).arity ++ [] := by
    rw [List.nil_append, List.take_append_drop, List.append_nil]
  exact hp.evaluate_eq_follow hm hk hparts hr hcall hdepth _ htargets (hasked.append _ hretained)

end Answered

/-- Running a factory is visiting its object. -/
theorem quiet_run (hparts : m.PartsRetained) {s : Settings} {made : Calls}
    (hrun : (p.factories s).run p.calls = .ok (factories, made)) (depth : Nat) {r : Fin n}
    (hr : r ∈ p.withFactory) (hdepth : m.graph.order.length ≤ depth + m.graph.index r) {d : Nat}
    (hd : m.graph.order.length ≤ d + m.graph.index r) :
    Event.quiet (Program.run ⟨p, factories⟩ depth r) =
      (m.visit d r).filterMap (p.shown m) := by
  induction depth generalizing r d with
  | zero =>
    have hindex : m.graph.index r < m.graph.order.length :=
      List.idxOf_lt_length_of_mem
        (Merge.mem_representatives.mp (hp.mem_withFactory.mp hr).1).1
    omega
  | succ depth ih =>
    have hindex : m.graph.index r < m.graph.order.length :=
      List.idxOf_lt_length_of_mem
        (Merge.mem_representatives.mp (hp.mem_withFactory.mp hr).1).1
    obtain ⟨d, rfl⟩ : ∃ d', d = d' + 1 := ⟨d - 1, by omega⟩
    have hcall : p.Mirrors m
        (fun j => Event.quiet (Program.run ⟨p, factories⟩ depth j)) (m.graph.index r) :=
      fun j hj hlt d' hd' => ih hj (by omega) hd'
    obtain ⟨factory, asked, hlookup, hasked, hanswered, _⟩ :=
      hp.exists_answered hm hk hparts hrun hr
    rw [Program.quiet_run_succ hlookup,
      hp.evaluate_creation hm hk hparts hr hasked hanswered hcall hd,
      hp.evaluate_statements hm hk hparts hr hasked hanswered hcall hd, Merge.visit]
    simp only [List.filterMap_cons, List.filterMap_append, shown, hr, if_true, true_and]
    split <;> simp

end Plan.Follows

end SceneCompiler
