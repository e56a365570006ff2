import SceneCompiler.Proofs.Constructor.Emission

/-!
# Refused requests

A request is refused if its callee is transient, or is kept nowhere and cannot be called for.  The
first happens exactly if a transient animation is a part of some object.  Otherwise what is kept
nowhere is asked for only once and by an earlier object, unless it is an expression animation some
references to which do not count for keeping it.
-/

namespace SceneCompiler

namespace Merge

variable {n : Nat}

/-- An expression animation that is kept nowhere, though some object refers to it twice or does not
come before it. -/
def Undercounted (m : Merge n) (j : Fin n) : Prop :=
  (m.object j).isExpressionAnimation = true ∧ m.transient j = false ∧ (m.counted j).length ≤ 1 ∧
    ¬((m.inReferences j).Nodup ∧ ∀ i ∈ m.inReferences j, m.graph.index i < m.graph.index j)

instance (m : Merge n) : DecidablePred m.Undercounted := fun _ =>
  inferInstanceAs (Decidable (_ ∧ _ ∧ _ ∧ ¬(_ ∧ _)))

variable {m : Merge n}

theorem mem_counted {i j : Fin n} :
    i ∈ m.counted j ↔ i ∈ m.inReferences j ∧
      ¬(m.transient i = true ∧ i ∈ (m.object j).animators.map Animator.animation) := by
  cases htransient : m.transient i <;> simp [counted, htransient]

theorem keeps_of_two_le {j : Fin n} (htransient : m.transient j = false)
    (h : 2 ≤ (m.counted j).length) : m.keeps j = true := by
  unfold keeps
  split
  · simp only [decide_eq_true_eq]
    omega
  · simp only [htransient, Bool.not_false, Bool.true_and, decide_eq_true_eq]
    omega

theorem isAtHand_of_expression {e j : Fin n} (h : (m.object j).isExpressionAnimation = true) :
    m.isAtHand e j = false := by
  have hstarted : (m.object j).started = [] := by
    rw [Object.started_eq, h, Bool.or_true, if_pos rfl]
  simp [isAtHand, hstarted]

theorem count_le_legs {j : Fin n} (h : m.transient j = false) (i : Fin n) (js : List (Fin n)) :
    js.count j ≤ (js.flatMap (m.leg i)).count ⟨i, j⟩ := by
  induction js with
  | nil => exact Nat.le_refl _
  | cons k js ih =>
    rw [List.flatMap_cons, List.count_append, List.count_cons]
    by_cases hk : k = j
    · subst hk
      simp only [leg, h, beq_self_eq_true, if_true, Bool.false_eq_true, if_false,
        List.count_singleton_self]
      omega
    · simp only [beq_iff_eq, hk, if_false]
      omega

section Lawful

variable {keep : Bool} (hm : m.Lawful (m.graph.atoms keep)) (hk : m.graph.Kinded)

include hm hk

theorem earlier_mem_counted (hparts : m.PartsRetained) {u j : Fin n}
    (hexpression : (m.object j).isExpressionAnimation = false) (hj : j ∈ m.representatives)
    (hu : u ∈ m.representatives) (huj : j ∈ m.targets u)
    (hlt : m.graph.index u < m.graph.index j) : u ∈ m.counted j := by
  refine mem_counted.mpr ⟨mem_inReferences.mpr ⟨hu, huj⟩, ?_⟩
  rintro ⟨htransient, hanimation⟩
  obtain ⟨w, hw⟩ := exists_binder hm hk hparts hu htransient
  obtain ⟨howner, hbound⟩ := mem_owners_of_started hw.mem hu hw.mem_started
  have hbound' : u ∈ m.bindingsOf j :=
    List.mem_map.mpr ⟨u, animation_mem_animatorReferences hanimation,
      (mem_representatives.mp hu).2⟩
  have heq := owner_unique (nodup_owners hm) htransient howner
    (mem_owners.mpr ⟨hj, hexpression⟩) hbound hbound'
  have hindex := hw.index_lt
  rw [heq] at hlt
  omega

end Lawful

end Merge

namespace Plan.Follows

variable {n : Nat} {p : Plan n} {m : Merge n} {construct : String} (hp : p.Follows m construct)
  {keep : Bool} (hm : m.Lawful (m.graph.atoms keep)) (hk : m.graph.Kinded)

include hp

theorem mem_withFactory_of_started {r : Fin n} (hr : r ∈ m.representatives)
    (h : (m.object r).started ≠ []) : r ∈ p.withFactory := by
  obtain ⟨_, _, hexpression⟩ := Object.animators_of_started h
  refine hp.mem_withFactory.mpr ⟨hr, ?_, m.not_inlines fun description source hobject => ?_⟩
  · cases htransient : m.transient r with
    | false => rfl
    | true => exact absurd ((Merge.transient_spec htransient).1.symm.trans hexpression) (by simp)
  · rw [hobject] at h
    exact h rfl

theorem refusal_eq {before : List (Request n)} {q : Request n} (hq : q.callee ∈ m.representatives)
    (hinlines : m.inlines q.callee = false) :
    p.refusal before q =
      if m.transient q.callee then
        some (.noFactory p.sites[q.caller].label p.sites[q.callee].label)
      else if m.keeps q.callee ||
          decide (m.graph.index q.caller < m.graph.index q.callee ∧ q ∉ before) then none
      else if m.graph.index q.caller < m.graph.index q.callee then
        some (.duplicateCall p.sites[q.caller].label p.sites[q.callee].label)
      else some (.missingStorage p.sites[q.caller].label p.sites[q.callee].label) := by
  have hinline : p.sites[q.callee].inline = none := by
    rw [← Option.not_isSome_iff_eq_none, hp.inline _ hq, hinlines]
    exact Bool.false_ne_true
  have hretained := hp.retained q.callee
  have hstored := hp.stored _ hq hinlines
  have hcaller := hp.index q.caller
  have hcallee := hp.index q.callee
  unfold refusal
  generalize p.sites[q.caller] = caller at *
  generalize p.sites[q.callee] = callee at *
  simp [Site.refusal, Site.calls, hinline, hretained, hstored, hcaller, hcallee]

theorem refusal_of_inlines {before : List (Request n)} {q : Request n}
    (hq : q.callee ∈ m.representatives) (hinlines : m.inlines q.callee = true) :
    p.refusal before q = none := by
  have hinline := hp.inline _ hq
  rw [hinlines] at hinline
  simp only [refusal, Site.refusal, hinline, if_true]

include hm

theorem caller_mem_counted {s : Settings} {r : Fin n} (hr : r ∈ p.withFactory) {q : Request n}
    (hq : q ∈ (p.factory s r).references)
    (hexpression : (m.object q.callee).isExpressionAnimation = false) :
    q.caller ∈ m.counted q.callee := by
  obtain ⟨hmem, hretained, _⟩ := hp.mem_withFactory.mp hr
  obtain ⟨hcaller, hcallee⟩ := hp.callee_mem_targets hm hmem hq
  have hrep := hm.targets_subset (Merge.mem_representatives.mp hcaller).1 hcallee
  refine Merge.mem_counted.mpr ⟨Merge.mem_inReferences.mpr ⟨hcaller, hcallee⟩, ?_⟩
  rintro ⟨htransient, hanimation⟩
  rcases hp.mem_references hm hmem hq with ⟨hown, _⟩ | ⟨_, _, hstarted, _, hhand⟩
  · rw [hown, hretained] at htransient
    cases htransient
  · -- the object that starts the caller would be the callee, which is then at hand
    obtain ⟨howner, hbound⟩ := Merge.mem_owners_of_started hmem hcaller hstarted
    have hbound' : q.caller ∈ m.bindingsOf q.callee :=
      List.mem_map.mpr ⟨q.caller, animation_mem_animatorReferences hanimation,
        (Merge.mem_representatives.mp hcaller).2⟩
    have heq := Merge.owner_unique (Merge.nodup_owners hm) htransient howner
      (Merge.mem_owners.mpr ⟨hrep, hexpression⟩) hbound hbound'
    have hne : (m.object r).started ≠ [] := by
      intro hnil
      rw [hnil] at hstarted
      cases hstarted
    rw [heq, ← (Object.animators_of_started hne).1] at hanimation
    rw [heq] at hhand
    simp only [Merge.isAtHand, htransient, Bool.true_and,
      List.contains_iff_mem.mpr hanimation] at hhand
    cases hhand

theorem undercounted_of_again {s : Settings} {left right : List (Request n)} {q : Request n}
    (hsplit : p.emission s p.withFactory = left ++ q :: right) (hagain : q ∈ left)
    (hretained : m.transient q.callee = false) (hkeeps : m.keeps q.callee = false) :
    m.Undercounted q.callee := by
  have hmem : q ∈ p.emission s p.withFactory := by simp [hsplit]
  obtain ⟨r, hr, hrequest⟩ := List.mem_flatMap.mp hmem
  obtain ⟨hcaller, _⟩ := hp.callee_mem_targets hm (hp.mem_withFactory.mp hr).1 hrequest
  have htwice : 2 ≤ (m.inReferences q.callee).count q.caller := by
    rw [Merge.count_inReferences hm.nodup_representatives hcaller]
    refine le_trans ?_ (hp.count_emission_le hm s q)
    have hpos := List.count_pos_iff.mpr hagain
    rw [hsplit, List.count_append, List.count_cons_self]
    omega
  cases hexpression : (m.object q.callee).isExpressionAnimation with
  | true =>
    refine ⟨hexpression, hretained, ?_, fun h => ?_⟩
    · by_contra hlength
      exact absurd (Merge.keeps_of_two_le hretained (by omega)) (by simp [hkeeps])
    · have hle := List.nodup_iff_count_le_one.mp h.1 q.caller
      omega
  | false =>
    have hcounted := hp.caller_mem_counted hm hr hrequest hexpression
    have hcount : (m.counted q.callee).count q.caller =
        (m.inReferences q.callee).count q.caller :=
      List.count_filter (List.mem_filter.mp hcounted).2
    have hlength := List.count_le_length (a := q.caller) (l := m.counted q.callee)
    exact absurd (Merge.keeps_of_two_le hretained (by omega)) (by simp [hkeeps])

include hk

theorem undercounted_of_later (hparts : m.PartsRetained) {s : Settings} {q : Request n}
    (hq : q ∈ p.emission s p.withFactory)
    (hle : m.graph.index q.callee ≤ m.graph.index q.caller)
    (hretained : m.transient q.callee = false) (hkeeps : m.keeps q.callee = false) :
    m.Undercounted q.callee := by
  obtain ⟨r, hr, hrequest⟩ := List.mem_flatMap.mp hq
  obtain ⟨hcaller, hcallee⟩ := hp.callee_mem_targets hm (hp.mem_withFactory.mp hr).1 hrequest
  have hrep := hm.targets_subset (Merge.mem_representatives.mp hcaller).1 hcallee
  cases hexpression : (m.object q.callee).isExpressionAnimation with
  | true =>
    refine ⟨hexpression, hretained, ?_, fun h => ?_⟩
    · by_contra hlength
      exact absurd (Merge.keeps_of_two_le hretained (by omega)) (by simp [hkeeps])
    · have hlt := h.2 q.caller (Merge.mem_inReferences.mpr ⟨hcaller, hcallee⟩)
      omega
  | false =>
    have hcounted := hp.caller_mem_counted hm hr hrequest hexpression
    by_cases hroot : q.callee = m.graph.root
    · have hpos := List.length_pos_of_mem hcounted
      simp only [Merge.keeps, if_pos hroot, decide_eq_false_iff_not] at hkeeps
      exact absurd hpos hkeeps
    · obtain ⟨u, hu, hutarget, hlt⟩ := hm.exists_earlier_referencer hrep hroot
      have hucounted :=
        Merge.earlier_mem_counted hm hk hparts hexpression hrep hu hutarget hlt
      have hne : u ≠ q.caller := by
        rintro rfl
        omega
      have hpair : [u, q.caller].Subperm (m.counted q.callee) := by
        refine List.subperm_of_subset (by simp [hne]) ?_
        intro x hx
        rcases List.mem_pair.mp hx with rfl | rfl
        · exact hucounted
        · exact hcounted
      exact absurd (Merge.keeps_of_two_le hretained hpair.length_le) (by simp [hkeeps])

theorem exists_transient_callee (s : Settings) {i : Fin n} (hi : i ∈ m.representatives)
    {part : Demand × Fin n} (hpart : part ∈ (m.object i).parts)
    (hcallee : m.transient m.representative[part.2] = true) :
    ∃ q ∈ p.emission s p.withFactory, m.transient q.callee = true := by
  induction hindex : m.graph.index i using Nat.strong_induction_on generalizing i part with
  | _ index ih =>
    have hmapped : m.representative[part.2] ∈
        (m.object i).parts.map fun part => m.representative[part.2] :=
      List.mem_map_of_mem (f := fun part : Demand × Fin n => m.representative[part.2]) hpart
    have hexpression := (Merge.transient_spec hcallee).1
    cases htransient : m.transient i with
    | false =>
      have hparameter := Merge.mem_parameterTargets_of_expression hm hk
        (Merge.mem_representatives.mp hi).1 hpart hexpression
      have hfactory : i ∈ p.withFactory := by
        refine hp.mem_withFactory.mpr ⟨hi, htransient,
          m.not_inlines fun description source hobject => ?_⟩
        rw [hobject] at hparameter
        cases hparameter
      refine ⟨⟨i, m.representative[part.2]⟩,
        List.mem_flatMap.mpr ⟨i, hfactory, ?_⟩, hcallee⟩
      rw [hp.references_factory hm s hi]
      exact List.mem_append_left _ (List.mem_map_of_mem hpart)
    | true =>
      have hroot := Merge.not_expression_root hk (Merge.transient_spec htransient).1
      obtain ⟨u, hu, hiu, hlt⟩ := hm.exists_earlier_referencer hi hroot
      rw [Merge.targets_eq_append, List.mem_append] at hiu
      rcases hiu with hi' | hstarted
      · obtain ⟨part', hpart', hrep⟩ := List.mem_map.mp hi'
        exact ih _ (hindex ▸ hlt) hu hpart' (hrep ▸ htransient) rfl
      · have hne : (m.object u).started ≠ [] := by
          intro hnil
          rw [hnil] at hstarted
          cases hstarted
        refine ⟨⟨i, m.representative[part.2]⟩, List.mem_flatMap.mpr
          ⟨u, hp.mem_withFactory_of_started hu hne, ?_⟩, hcallee⟩
        rw [hp.references_factory hm s hu]
        refine List.mem_append_right _ (List.mem_flatMap.mpr ⟨i, hstarted, ?_⟩)
        rw [Merge.leg, if_pos htransient]
        refine List.mem_map_of_mem (List.mem_filter.mpr ⟨?_, ?_⟩)
        · rw [Merge.targets_eq_append]
          exact List.mem_append_left _ hmapped
        · rw [Merge.isAtHand_of_expression hexpression]
          rfl

/-- Every reference to an expression animation that is not transient is asked for. -/
theorem count_le_emission (hparts : m.PartsRetained) (s : Settings) {i j : Fin n}
    (hexpression : (m.object j).isExpressionAnimation = true) (hretained : m.transient j = false)
    (hi : i ∈ m.representatives) (hij : j ∈ m.targets i) :
    (m.targets i).count j ≤ (p.emission s p.withFactory).count ⟨i, j⟩ := by
  have hfactory : ∀ r ∈ p.withFactory,
      (p.factory s r).references.Sublist (p.emission s p.withFactory) := fun r hr =>
    List.sublist_flatten_of_mem (List.mem_map_of_mem hr)
  cases htransient : m.transient i with
  | false =>
    have hinlines : m.inlines i = false := by
      refine m.not_inlines fun description source hobject => ?_
      rw [Merge.targets_eq_append, List.mem_append] at hij
      rcases hij with hmapped | hstarted
      · obtain ⟨part, hpart, rfl⟩ := List.mem_map.mp hmapped
        have hparameter := Merge.mem_parameterTargets_of_expression hm hk
          (Merge.mem_representatives.mp hi).1 hpart hexpression
        rw [hobject] at hparameter
        cases hparameter
      · rw [hobject] at hstarted
        cases hstarted
    have hmem : i ∈ p.withFactory := hp.mem_withFactory.mpr ⟨hi, htransient, hinlines⟩
    refine le_trans ?_ ((hfactory i hmem).count_le _)
    rw [hp.references_factory hm s hi, Merge.targets_eq_append, List.count_append,
      List.count_append, count_map_request]
    exact Nat.add_le_add_left (Merge.count_le_legs hretained i _) _
  | true =>
    obtain ⟨w, hw⟩ := Merge.exists_binder hm hk hparts hi htransient
    have hne : (m.object w).started ≠ [] := by
      intro hnil
      have hmem := hw.mem_started
      rw [hnil] at hmem
      cases hmem
    have hleg : (m.leg w i).Sublist (p.factory s w).references := by
      rw [hp.references_factory hm s hw.mem]
      refine List.Sublist.trans (List.sublist_flatten_of_mem (List.mem_map_of_mem ?_))
        (List.sublist_append_right _ _)
      exact List.mem_map.mpr ⟨i, hw.mem_started, (Merge.mem_representatives.mp hi).2⟩
    refine le_trans (Nat.le_of_eq ?_)
      ((hleg.trans (hfactory w (hp.mem_withFactory_of_started hw.mem hne))).count_le _)
    have hcount := count_map_request i j id ((m.targets i).filter fun k => !m.isAtHand i k)
    rw [List.map_id] at hcount
    rw [Merge.leg, if_pos htransient]
    refine Eq.trans ?_ hcount.symm
    rw [List.count_filter (by simp [Merge.isAtHand_of_expression hexpression])]

omit hk in
theorem retained_callee (hparts : m.PartsRetained) {s : Settings} {q : Request n}
    (hq : q ∈ p.emission s p.withFactory) : m.transient q.callee = false := by
  obtain ⟨r, hr, hrequest⟩ := List.mem_flatMap.mp hq
  have hmem := (hp.mem_withFactory.mp hr).1
  rcases hp.mem_references hm hmem hrequest with ⟨_, _, hown⟩ | ⟨htransient, hcaller, _, hcallee, _⟩
  · by_contra hcallee
    obtain ⟨part, hpart, hrep⟩ := List.mem_map.mp (hown (by simpa using hcallee))
    rw [← hrep, hparts r hmem part hpart] at hcallee
    exact hcallee rfl
  · exact Merge.retained_of_mem_targets hparts hcaller htransient hcallee

theorem firstRefusal_cases {s : Settings} {fault : Fault}
    (h : p.firstRefusal [] (p.emission s p.withFactory) = some fault) :
    (∃ caller callee, fault = .noFactory caller callee ∧ ¬m.PartsRetained) ∨
      (∃ caller callee, fault = .duplicateCall caller callee ∧
        ∃ j ∈ m.representatives, m.Undercounted j) ∨
      ∃ caller callee, fault = .missingStorage caller callee ∧
        (m.PartsRetained → ∃ j ∈ m.representatives, m.Undercounted j) := by
  obtain ⟨left, q, right, hsplit, hrefused⟩ := p.exists_refused h
  rw [List.nil_append] at hrefused
  have hmem : q ∈ p.emission s p.withFactory := by simp [hsplit]
  have hrep := (hp.mem_of_emission hm hmem).2
  cases hinlines : m.inlines q.callee with
  | true =>
    rw [hp.refusal_of_inlines hrep hinlines] at hrefused
    cases hrefused
  | false =>
    rw [hp.refusal_eq hrep hinlines] at hrefused
    split at hrefused
    · rename_i htransient
      refine .inl ⟨_, _, (Option.some.inj hrefused).symm, fun hparts => ?_⟩
      rw [hp.retained_callee hm hparts hmem] at htransient
      cases htransient
    rename_i htransient
    have hretained : m.transient q.callee = false := by simpa using htransient
    split at hrefused
    · cases hrefused
    rename_i hnot
    simp only [Bool.or_eq_true, decide_eq_true_eq, not_or, not_and, not_not] at hnot
    have hkeeps : m.keeps q.callee = false := by simpa using hnot.1
    split at hrefused
    · rename_i hlt
      exact .inr (.inl ⟨_, _, (Option.some.inj hrefused).symm, q.callee, hrep,
        hp.undercounted_of_again hm hsplit (hnot.2 hlt) hretained hkeeps⟩)
    · rename_i hle
      exact .inr (.inr ⟨_, _, (Option.some.inj hrefused).symm, fun hparts => ⟨q.callee, hrep,
        hp.undercounted_of_later hm hk hparts hmem (Nat.le_of_not_lt hle) hretained hkeeps⟩⟩)

theorem refused_of_undercounted (hparts : m.PartsRetained) (s : Settings) {j : Fin n}
    (hj : j ∈ m.representatives) (h : m.Undercounted j) :
    p.firstRefusal [] (p.emission s p.withFactory) ≠ none := by
  intro hnone
  obtain ⟨hexpression, hretained, hlength, hnot⟩ := h
  have hkeeps : m.keeps j = false := by
    rw [Merge.keeps, if_neg (Merge.not_expression_root hk hexpression)]
    simp only [Bool.and_eq_false_iff, decide_eq_false_iff_not]
    exact .inr (by omega)
  have hcount : ∀ i ∈ m.inReferences j, (m.inReferences j).count i ≤
      (p.emission s p.withFactory).count ⟨i, j⟩ := by
    intro i hi
    obtain ⟨hi, hij⟩ := Merge.mem_inReferences.mp hi
    rw [Merge.count_inReferences hm.nodup_representatives hi]
    exact hp.count_le_emission hm hk hparts s hexpression hretained hi hij
  have hcalled : ∀ i left right, p.emission s p.withFactory = left ++ ⟨i, j⟩ :: right →
      m.graph.index i < m.graph.index j ∧ (⟨i, j⟩ : Request n) ∉ left := by
    intro i left right hsplit
    rw [hsplit] at hnone
    have hrefusal := p.refusal_eq_none hnone
    rw [List.nil_append, hp.refusal_eq hj (m.not_inlines_of_expression hexpression)] at hrefusal
    by_contra hcall
    simp only [hretained, hkeeps, Bool.false_eq_true, if_false, Bool.false_or, hcall,
      decide_false] at hrefusal
    split at hrefusal <;> cases hrefusal
  refine hnot ⟨List.nodup_iff_count_le_one.mpr fun i => ?_, fun i hi => ?_⟩
  · by_contra htwice
    have hmem : i ∈ m.inReferences j := List.count_pos_iff.mp (by omega)
    have htwo := hcount i hmem
    obtain ⟨left, right, hsplit⟩ : ∃ left right,
        p.emission s p.withFactory = left ++ (⟨i, j⟩ : Request n) :: right :=
      List.append_of_mem (List.count_pos_iff.mp (by omega))
    have hleft := List.count_eq_zero.mpr (hcalled i left right hsplit).2
    rw [hsplit, List.count_append, hleft, List.count_cons_self] at htwo
    obtain ⟨middle, right', hsplit'⟩ := List.append_of_mem
      (List.count_pos_iff.mp (show 0 < right.count (⟨i, j⟩ : Request n) by omega))
    refine (hcalled i (left ++ ⟨i, j⟩ :: middle) right' ?_).2 (by simp)
    rw [hsplit, hsplit', List.append_assoc, List.cons_append]
  · have hpos := List.count_pos_iff.mpr hi
    obtain ⟨left, right, hsplit⟩ : ∃ left right,
        p.emission s p.withFactory = left ++ (⟨i, j⟩ : Request n) :: right :=
      List.append_of_mem (List.count_pos_iff.mp (lt_of_lt_of_le hpos (hcount i hi)))
    exact (hcalled i left right hsplit).1

theorem firstRefusal_eq_none_iff (s : Settings) :
    p.firstRefusal [] (p.emission s p.withFactory) = none ↔
      m.PartsRetained ∧ ∀ j ∈ m.representatives, ¬m.Undercounted j := by
  constructor
  · intro hnone
    have hparts : m.PartsRetained := by
      intro i hi part hpart
      by_contra htransient
      obtain ⟨q, hq, hcallee⟩ :=
        hp.exists_transient_callee hm hk s hi hpart (by simpa using htransient)
      obtain ⟨left, right, hsplit⟩ := List.append_of_mem hq
      rw [hsplit] at hnone
      have hrefusal := p.refusal_eq_none hnone
      rw [hp.refusal_eq (hp.mem_of_emission hm hq).2 (m.not_inlines_of_transient hcallee),
        if_pos hcallee] at hrefusal
      cases hrefusal
    exact ⟨hparts, fun j hj h => hp.refused_of_undercounted hm hk hparts s hj h hnone⟩
  · rintro ⟨hparts, hnot⟩
    cases hrefusal : p.firstRefusal [] (p.emission s p.withFactory) with
    | none => rfl
    | some fault =>
      rcases hp.firstRefusal_cases hm hk hrefusal with
        ⟨_, _, _, h⟩ | ⟨_, _, _, j, hj, h⟩ | ⟨_, _, _, h⟩
      · exact absurd hparts h
      · exact absurd h (hnot j hj)
      · obtain ⟨j, hj, h⟩ := h hparts
        exact absurd h (hnot j hj)

end Plan.Follows

end SceneCompiler
