import SceneCompiler.Proofs.Plan.Sites

/-!
# Who asks for what

A factory asks on behalf of its own object and of the transient animations that it starts, for what
these refer to.  A transient animation is started by one factory, so no request is made by two.
-/

namespace SceneCompiler

/-- What an object asks for so as to obtain one of its targets: the target itself or, where that is
a transient animation, what the animation refers to, apart from the object at hand. -/
def Merge.leg {n : Nat} (m : Merge n) (r j : Fin n) : List (Request n) :=
  if m.transient j then ((m.targets j).filter fun k => !m.isAtHand j k).map (Request.mk j)
  else [⟨r, j⟩]

namespace Plan

variable {n : Nat} {p : Plan n} {m : Merge n} {construct : String}

theorem count_map_request {α : Type} (caller callee : Fin n) (f : α → Fin n)
    (as : List α) :
    (as.map fun a => (⟨caller, f a⟩ : Request n)).count ⟨caller, callee⟩ =
      (as.map f).count callee := by
  rw [show (fun a => (⟨caller, f a⟩ : Request n)) = Request.mk caller ∘ f from rfl,
    ← List.map_map]
  refine List.count_map_of_injective _ _ (fun a b h => ?_) callee
  cases h
  rfl

private theorem count_flatMap_le {α : Type} {f : α → List (Request n)} {g : α → Fin n}
    {q : Request n} {i : Fin n} {bound : Nat} (as : List α)
    (h : ∀ a ∈ as, (f a).count q ≤ if g a = i then bound else 0) :
    (as.flatMap f).count q ≤ (as.map g).count i * bound := by
  induction as with
  | nil => simp
  | cons a as ih =>
    have ha := h a List.mem_cons_self
    have has := ih fun x hx => h x (List.mem_cons_of_mem _ hx)
    rw [List.flatMap_cons, List.count_append, List.map_cons, List.count_cons, Nat.add_mul]
    by_cases hg : g a = i
    · simp only [hg, if_true, beq_self_eq_true] at ha ⊢
      omega
    · simp only [hg, if_false, beq_iff_eq] at ha ⊢
      omega

private theorem eq_of_count_map_le {α β : Type} [DecidableEq β] {f : α → β} {x y : α} {as : List α}
    (hx : x ∈ as) (hy : y ∈ as) (hxy : f x = f y) (h : (as.map f).count (f x) ≤ 1) : x = y := by
  induction as with
  | nil => cases hx
  | cons a as ih =>
    rw [List.map_cons, List.count_cons] at h
    have hrest : ∀ z ∈ as, f z = f x → f a ≠ f x := by
      intro z hz hzx ha
      have hpos := List.count_pos_iff.mpr (List.mem_map_of_mem (f := f) hz)
      rw [hzx] at hpos
      rw [if_pos (by simpa using ha)] at h
      omega
    rcases List.mem_cons.mp hx with rfl | hxs
    · rcases List.mem_cons.mp hy with rfl | hys
      · rfl
      · exact absurd rfl (hrest y hys hxy.symm)
    · rcases List.mem_cons.mp hy with rfl | hys
      · exact absurd hxy.symm (hrest x hxs rfl)
      · exact ih hxs hys (by omega)

namespace Follows

variable (hp : p.Follows m construct)

include hp

theorem request_eq (caller object : Fin n) :
    p.request caller object = ⟨caller, m.representative[object]⟩ := by
  have hmerge := hp.merge
  subst hmerge
  rfl

theorem mem_withFactory {r : Fin n} :
    r ∈ p.withFactory ↔
      r ∈ m.representatives ∧ m.transient r = false ∧ m.inlines r = false := by
  have hmerge := hp.merge
  subst hmerge
  simp only [withFactory, List.mem_mergeSort, List.mem_filter, Site.hasFactory, hp.retained,
    Bool.and_eq_true, Bool.not_eq_true', Option.isNone_iff_eq_none]
  constructor
  · rintro ⟨hr, htransient, hinline⟩
    refine ⟨hr, htransient, ?_⟩
    rw [← hp.inline r hr, hinline, Option.isSome_none]
  · rintro ⟨hr, htransient, hinlines⟩
    refine ⟨hr, htransient, ?_⟩
    rw [← hp.inline r hr] at hinlines
    simpa using hinlines

theorem nodup_withFactory (hnodup : m.representatives.Nodup) : p.withFactory.Nodup := by
  have hmerge := hp.merge
  subst hmerge
  exact (List.mergeSort_perm _ _).nodup_iff.mpr (hnodup.filter _)

variable {keep : Bool} (hm : m.Lawful (m.graph.atoms keep))

include hm

omit hp in
theorem binding_mem_order {r : Fin n} (hr : r ∈ m.representatives) {b : Bool × Fin n}
    (hb : b ∈ animatorBindings true (m.object r).started) :
    b.2 ∈ animatorReferences (m.object r).started ∧ b.2 ∈ m.graph.order := by
  have hstarted : b.2 ∈ animatorReferences (m.object r).started := by
    rw [← map_snd_animatorBindings true]
    exact List.mem_map_of_mem hb
  refine ⟨hstarted, hm.ordered.closed r (Merge.mem_representatives.mp hr).1 ?_⟩
  change b.2 ∈ (m.object r).references
  rw [Object.references_eq]
  exact List.mem_append_right _ hstarted

omit hp in
theorem isAtHand_iff {r e k : Fin n} {top : Bool} (hr : r ∈ m.representatives)
    (he : e ∈ m.representatives) (htransient : m.transient e = true)
    (hb : (top, e) ∈ animatorBindings true (m.object r).started) (hk : k ∈ m.graph.order) :
    m.isAtHand e m.representative[k] = true ↔ top = true ∧ k = r := by
  have hstarted := (binding_mem_order hm hr hb).1
  simp only [Merge.isAtHand, htransient, Bool.true_and, List.contains_iff_mem]
  rw [← mem_animatorBindings_true]
  constructor
  · intro hbound
    have hrep := hm.representative_mem hk
    obtain ⟨howner, hmem⟩ := Merge.mem_owners_of_started hr he hstarted
    obtain ⟨howner', hmem'⟩ :=
      Merge.mem_owners_of_started hrep he (binding_mem_order hm hrep hbound).1
    have heq := Merge.owner_unique (Merge.nodup_owners hm) htransient howner howner' hmem hmem'
    rw [heq] at hbound
    have hcount := Merge.count_started_le htransient hr he
    rw [← map_snd_animatorBindings true] at hcount
    have hpair := eq_of_count_map_le (f := Prod.snd) hb hbound rfl hcount
    refine ⟨congrArg Prod.fst hpair, ?_⟩
    have hanimators : (m.object r).animators ≠ [] := by
      intro hnil
      rw [Merge.bindingsOf, hnil] at hmem
      cases hmem
    refine (Merge.eq_of_animators hm (Merge.mem_representatives.mp hr).1 hk ?_ hanimators).symm
    rw [heq, (Merge.mem_representatives.mp hr).2]
  · rintro ⟨rfl, rfl⟩
    rwa [(Merge.mem_representatives.mp hr).2]

theorem bindingRequests_eq {r : Fin n} (hr : r ∈ m.representatives) {b : Bool × Fin n}
    (hb : b ∈ animatorBindings true (m.object r).started) :
    p.bindingRequests r b = m.leg r m.representative[b.2] := by
  have hmerge := hp.merge
  subst hmerge
  obtain ⟨top, a⟩ := b
  obtain ⟨_, horder⟩ := binding_mem_order hm hr hb
  have hretained : (p.site a).retained = !p.merge.transient p.merge.representative[a] :=
    hp.retained _
  unfold bindingRequests Merge.leg
  cases htransient : p.merge.transient p.merge.representative[a] with
  | false =>
    rw [htransient] at hretained
    simp only [hretained, Bool.not_false, if_true, Bool.false_eq_true, if_false]
    split <;> rfl
  | true =>
    have hrep := hm.representative_mem horder
    have hself := Merge.eq_of_transient htransient hrep horder rfl
    rw [htransient] at hretained
    rw [← hself] at htransient hrep
    have hexpression := (Merge.transient_spec htransient).1
    have htargets : p.merge.targets a =
        (p.merge.object a).parameterTargets.map fun k => p.merge.representative[k] := by
      rw [← Object.references_of_isExpressionAnimation hexpression]
      rfl
    have hfilter : ∀ k ∈ (p.merge.object a).parameterTargets,
        (!p.merge.isAtHand a p.merge.representative[k]) = !(top && k == r) := by
      intro k hk
      have hkorder := hm.ordered.closed a horder (Object.parameterTargets_subset _ hk)
      refine congrArg not (Bool.eq_iff_iff.mpr ?_)
      rw [isAtHand_iff hm hr hrep htransient hb hkorder]
      simp
    obtain ⟨base, q, expression, hobject⟩ := Object.exists_expression hexpression
    rw [← hself, htargets, List.filter_map, List.map_map]
    simp only [Function.comp_def]
    rw [List.filter_congr hfilter]
    simp only [hobject, hretained, Bool.not_true, Bool.false_eq_true, if_false, if_true,
      Object.parameterTargets]
    rfl

theorem bindings_eq_legs {r : Fin n} (hr : r ∈ m.representatives) :
    (animatorBindings true (m.object r).started).flatMap (p.bindingRequests r) =
      ((animatorReferences (m.object r).started).map fun i => m.representative[i]).flatMap
        (m.leg r) := by
  rw [← map_snd_animatorBindings true, List.map_map, List.flatMap_map]
  exact List.flatMap_congr fun b hb => hp.bindingRequests_eq hm hr hb

theorem references_factory (s : Settings) {r : Fin n} (hr : r ∈ m.representatives) :
    (p.factory s r).references =
      ((m.object r).parts.map fun part => (⟨r, m.representative[part.2]⟩ : Request n)) ++
        ((animatorReferences (m.object r).started).map fun i => m.representative[i]).flatMap
          (m.leg r) := by
  rw [← hp.bindings_eq_legs hm hr]
  have hmerge := hp.merge
  subst hmerge
  rw [Factory.references, creation_references, statements_references, ← List.append_assoc,
    partRequests, partRequests, ← List.map_append, List.take_append_drop]
  rfl

theorem mem_references {s : Settings} {r : Fin n} (hr : r ∈ m.representatives) {q : Request n}
    (hq : q ∈ (p.factory s r).references) :
    (q.caller = r ∧ q.callee ∈ m.targets r ∧
        (m.transient q.callee = true →
          q.callee ∈ (m.object r).parts.map fun part => m.representative[part.2])) ∨
      (m.transient q.caller = true ∧ q.caller ∈ m.representatives ∧
        q.caller ∈ animatorReferences (m.object r).started ∧
        q.callee ∈ m.targets q.caller ∧ m.isAtHand q.caller q.callee = false) := by
  rw [hp.references_factory hm s hr, List.mem_append] at hq
  rcases hq with hown | hstarted
  · obtain ⟨part, hpart, rfl⟩ := List.mem_map.mp hown
    have hmapped := List.mem_map_of_mem (f := fun part : Demand × Fin n => m.representative[part.2]) hpart
    refine .inl ⟨rfl, ?_, fun _ => hmapped⟩
    rw [Merge.targets_eq_append]
    exact List.mem_append_left _ hmapped
  · obtain ⟨j, hj, hleg⟩ := List.mem_flatMap.mp hstarted
    unfold Merge.leg at hleg
    split at hleg
    · rename_i htransient
      obtain ⟨a, ha, rfl⟩ := List.mem_map.mp hj
      obtain ⟨b, hb, rfl⟩ : ∃ b ∈ animatorBindings true (m.object r).started, b.2 = a := by
        rw [← map_snd_animatorBindings true] at ha
        exact List.mem_map.mp ha
      have horder := (binding_mem_order hm hr hb).2
      have hrep := hm.representative_mem horder
      have hself := Merge.eq_of_transient htransient hrep horder rfl
      rw [← hself] at hleg htransient hrep
      obtain ⟨k, hk, rfl⟩ := List.mem_map.mp hleg
      obtain ⟨hk, hhand⟩ := List.mem_filter.mp hk
      exact .inr ⟨htransient, hrep, ha, hk, by simpa using hhand⟩
    · rename_i htransient
      rw [List.mem_singleton.mp hleg]
      refine .inl ⟨rfl, ?_, fun h => absurd h htransient⟩
      rw [Merge.targets_eq_append]
      exact List.mem_append_right _ hj

theorem callee_mem_targets {s : Settings} {r : Fin n} (hr : r ∈ m.representatives) {q : Request n}
    (hq : q ∈ (p.factory s r).references) :
    q.caller ∈ m.representatives ∧ q.callee ∈ m.targets q.caller := by
  rcases hp.mem_references hm hr hq with ⟨hcaller, hcallee, _⟩ | ⟨_, hcaller, _, hcallee, _⟩
  · rw [hcaller]
    exact ⟨hr, hcallee⟩
  · exact ⟨hcaller, hcallee⟩

theorem eq_of_mem_references {s : Settings} {r r' : Fin n} (hr : r ∈ p.withFactory)
    (hr' : r' ∈ p.withFactory) {q : Request n} (hq : q ∈ (p.factory s r).references)
    (hq' : q ∈ (p.factory s r').references) : r = r' := by
  obtain ⟨hmem, htransient, _⟩ := hp.mem_withFactory.mp hr
  obtain ⟨hmem', htransient', _⟩ := hp.mem_withFactory.mp hr'
  rcases hp.mem_references hm hmem hq with ⟨hcaller, _⟩ | ⟨hcaller, hrep, hstarted, _⟩
  · rcases hp.mem_references hm hmem' hq' with ⟨hcaller', _⟩ | ⟨hcaller', _⟩
    · exact hcaller.symm.trans hcaller'
    · rw [hcaller, htransient] at hcaller'
      cases hcaller'
  · rcases hp.mem_references hm hmem' hq' with ⟨hcaller', _⟩ | ⟨_, _, hstarted', _⟩
    · rw [hcaller', htransient'] at hcaller
      cases hcaller
    · obtain ⟨howner, hbound⟩ := Merge.mem_owners_of_started hmem hrep hstarted
      obtain ⟨howner', hbound'⟩ := Merge.mem_owners_of_started hmem' hrep hstarted'
      exact Merge.owner_unique (Merge.nodup_owners hm) hcaller howner' howner hbound' hbound

omit hm in
theorem pairOf_inj {q q' : Request n} (hcaller : q.caller ∈ m.graph.order)
    (hcallee : q.callee ∈ m.graph.order) (h : p.pairOf q = p.pairOf q') : q = q' := by
  simp only [pairOf, hp.index, Prod.mk.injEq] at h
  obtain ⟨caller, callee⟩ := q
  obtain ⟨caller', callee'⟩ := q'
  rw [Request.mk.injEq]
  exact ⟨Graph.index_inj hcaller h.1, Graph.index_inj hcallee h.2⟩

theorem mem_of_emission {s : Settings} {q : Request n} (hq : q ∈ p.emission s p.withFactory) :
    q.caller ∈ m.representatives ∧ q.callee ∈ m.representatives := by
  obtain ⟨r, hr, hq⟩ := List.mem_flatMap.mp hq
  obtain ⟨hcaller, hcallee⟩ := hp.callee_mem_targets hm (hp.mem_withFactory.mp hr).1 hq
  exact ⟨hcaller, hm.targets_subset (Merge.mem_representatives.mp hcaller).1 hcallee⟩

theorem emission_inj (s : Settings) : ∀ q ∈ p.emission s p.withFactory,
    ∀ q' ∈ p.emission s p.withFactory, p.pairOf q = p.pairOf q' → q = q' := by
  intro q hq q' _ h
  obtain ⟨hcaller, hcallee⟩ := hp.mem_of_emission hm hq
  exact hp.pairOf_inj (Merge.mem_representatives.mp hcaller).1
    (Merge.mem_representatives.mp hcallee).1 h

theorem recalls_nil (s : Settings) :
    p.Recalls (p.emission s p.withFactory) p.calls [] := by
  intro q hq _
  refine ⟨fun hpair => ?_, fun h => absurd h List.not_mem_nil⟩
  rw [hp.calls] at hpair
  obtain ⟨i, hi, hcall⟩ := List.mem_filterMap.mp hpair
  obtain ⟨hinlines, hindex⟩ := Merge.fst_of_inlineCall? hcall
  obtain ⟨hcaller, _⟩ := hp.mem_of_emission hm hq
  simp only [pairOf, hp.index] at hindex
  have heq := Graph.index_inj (Merge.mem_representatives.mp hcaller).1 hindex
  obtain ⟨r, hr, hq⟩ := List.mem_flatMap.mp hq
  obtain ⟨hmem, _, hnot⟩ := hp.mem_withFactory.mp hr
  rw [← heq] at hinlines
  rcases hp.mem_references hm hmem hq with ⟨hown, _⟩ | ⟨htransient, _⟩
  · rw [hown, hnot] at hinlines
    cases hinlines
  · rw [m.not_inlines_of_transient htransient] at hinlines
    cases hinlines

theorem count_references_le (s : Settings) {r : Fin n} (hr : r ∈ p.withFactory) (q : Request n) :
    (p.factory s r).references.count q ≤ (m.targets q.caller).count q.callee := by
  obtain ⟨hmem, hretained, _⟩ := hp.mem_withFactory.mp hr
  by_cases hq : q ∈ (p.factory s r).references
  swap
  · rw [List.count_eq_zero.mpr hq]
    exact Nat.zero_le _
  have hmemReferences := hp.mem_references hm hmem hq
  rw [hp.references_factory hm s hmem, List.count_append]
  obtain ⟨caller, callee⟩ := q
  rcases hmemReferences with ⟨rfl, _⟩ | ⟨htransient, _⟩
  · rw [Merge.targets_eq_append, List.count_append, count_map_request]
    refine Nat.add_le_add_left ?_ _
    refine Nat.le_trans (count_flatMap_le (g := id) _ fun j hj => ?_ : _ ≤ _ * 1)
      (Nat.le_of_eq (by rw [Nat.mul_one, List.map_id]))
    unfold Merge.leg
    split
    · -- what a transient animation asks for is not asked for by the object itself
      rename_i htransient
      refine Nat.le_trans (Nat.le_of_eq (List.count_eq_zero.mpr fun hmap => ?_)) (Nat.zero_le _)
      obtain ⟨k, _, heq⟩ := List.mem_map.mp hmap
      rw [(Request.mk.inj heq).1, hretained] at htransient
      cases htransient
    · simp only [List.count_singleton, id_eq, beq_iff_eq, Request.mk.injEq, true_and]
      exact Nat.le_refl _
  · have hcaller : caller ≠ r := by
      rintro rfl
      rw [hretained] at htransient
      cases htransient
    have hnone : (⟨caller, callee⟩ : Request n) ∉ (m.object r).parts.map
        fun part => (⟨r, m.representative[part.2]⟩ : Request n) := by
      intro hmap
      obtain ⟨part, _, heq⟩ := List.mem_map.mp hmap
      exact hcaller (Request.mk.inj heq).1.symm
    rw [List.count_eq_zero.mpr hnone, Nat.zero_add]
    calc List.count (⟨caller, callee⟩ : Request n) _
        ≤ (((animatorReferences (m.object r).started).map fun i => m.representative[i]).map id).count
              caller * (m.targets caller).count callee := count_flatMap_le _ fun j hj => ?_
      _ ≤ 1 * (m.targets caller).count callee := by
          refine Nat.mul_le_mul_right _ ?_
          rw [List.map_id]
          exact Merge.count_map_started_le htransient hmem
      _ = (m.targets caller).count callee := Nat.one_mul _
    unfold Merge.leg
    split
    · by_cases hj : id j = caller
      · subst hj
        have hcount := count_map_request (id j) callee id
          ((m.targets j).filter fun k => !m.isAtHand j k)
        rw [List.map_id] at hcount
        rw [if_pos rfl]
        exact (Nat.le_of_eq hcount).trans (List.filter_sublist.count_le _)
      · rw [if_neg hj]
        refine Nat.le_of_eq (List.count_eq_zero.mpr fun hmap => ?_)
        obtain ⟨k, _, heq⟩ := List.mem_map.mp hmap
        exact hj (Request.mk.inj heq).1
    · refine Nat.le_trans (Nat.le_of_eq (List.count_eq_zero.mpr fun hmap => ?_)) (Nat.zero_le _)
      exact hcaller (Request.mk.inj (List.mem_singleton.mp hmap)).1

theorem count_emission_le (s : Settings) (q : Request n) :
    (p.emission s p.withFactory).count q ≤ (m.targets q.caller).count q.callee := by
  by_cases hq : q ∈ p.emission s p.withFactory
  · obtain ⟨r, hr, hmem⟩ := List.mem_flatMap.mp hq
    have hothers : ((p.withFactory.erase r).map
        (List.count q ∘ fun r => (p.factory s r).references)).sum = 0 := by
      refine List.sum_eq_zero fun x hx => ?_
      obtain ⟨r', hr', rfl⟩ := List.mem_map.mp hx
      obtain ⟨hne, hr'⟩ := (hp.nodup_withFactory hm.nodup_representatives).mem_erase_iff.mp hr'
      refine List.count_eq_zero.mpr fun hmem' => hne ?_
      exact hp.eq_of_mem_references hm hr' hr hmem' hmem
    rw [emission, List.count_flatMap, ← List.sum_map_erase _ hr, hothers]
    exact hp.count_references_le hm s hr q
  · rw [List.count_eq_zero.mpr hq]
    exact Nat.zero_le _

end Follows

end Plan

end SceneCompiler
