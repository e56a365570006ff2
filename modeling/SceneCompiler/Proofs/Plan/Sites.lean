import SceneCompiler.Proofs.Constructor.Replies
import SceneCompiler.Proofs.Merge.Transient

/-!
# The sites of a plan

A plan is drawn for a merged graph unless an animator of an easing function leads out of the graph.
Writing paths inline never fails: what a path is made from is kept, or comes after the path.  So every
site is determined by the merged graph.
-/

namespace SceneCompiler

def Object.source? {ρ : Type} : Object ρ → Option ρ
  | .path _ source => some source
  | _ => none

namespace Merge

variable {n : Nat} (m : Merge n)

def counted (r : Fin n) : List (Fin n) :=
  (m.inReferences r).filter fun i =>
    !(m.transient i && ((m.object r).animators.map Animator.animation).contains i)

def inlines (r : Fin n) : Bool :=
  (m.object r).source?.isSome && decide ((m.counted r).length ≤ 1)

def keeps (r : Fin n) : Bool :=
  if r = m.graph.root then decide (0 < (m.counted r).length)
  else !m.transient r && decide (1 < (m.counted r).length)

theorem not_inlines {r : Fin n} (h : ∀ description source, m.object r ≠ .path description source) :
    m.inlines r = false := by
  cases hobject : m.object r with
  | composition base variant => simp [inlines, hobject, Object.source?]
  | path description source => exact absurd hobject (h description source)
  | canvas description geometry => simp [inlines, hobject, Object.source?]

theorem not_inlines_of_expression {r : Fin n} (h : (m.object r).isExpressionAnimation = true) :
    m.inlines r = false := by
  refine m.not_inlines fun description source hobject => ?_
  rw [hobject] at h
  cases h

theorem not_inlines_of_transient {r : Fin n} (h : m.transient r = true) :
    m.inlines r = false :=
  m.not_inlines_of_expression (transient_spec h).1

def outlook : Outlook n where
  merge := m
  index := Vector.ofFn m.graph.index
  transient := Vector.ofFn m.transient
  inbound := Vector.ofFn m.counted

theorem ofMerge_eq_outlook (h : ∀ i ∈ m.bound, i ∈ m.graph.order) :
    Outlook.ofMerge m = .ok m.outlook := by
  have hinbound : Vector.ofFn (Outlook.countedReferences m (Vector.ofFn m.transient)) =
      Vector.ofFn m.counted := by
    congr 1
    funext r
    simp [Outlook.countedReferences, counted]
  simp only [Outlook.ofMerge, bindings_eq h]
  refine congrArg Except.ok ?_
  rw [outlook, ← hinbound]
  rfl

theorem ofMerge_error (h : ∃ i ∈ m.bound, i ∉ m.graph.order) :
    ∃ i, Outlook.ofMerge m = .error (.outsideGraph (m.object i).typeName) := by
  obtain ⟨i, hi⟩ := bindings_error h
  refine ⟨i, ?_⟩
  rw [Outlook.ofMerge, hi]
  rfl

def bareSite (names : List (Fin n × String)) (r : Fin n) : Site :=
  m.outlook.site names r

def finalSite (names : List (Fin n × String)) (construct : String) (r : Fin n) : Site :=
  match (m.object r).source? with
  | some source =>
    let access :=
      Site.accessOf (m.bareSite names r) (m.bareSite names m.representative[source]) false
    if m.inlines r then
      { m.bareSite names r with
        inline := some (construct ++ " CompositionPath(" ++ access.text ++ ")"), stored := false }
    else m.bareSite names r
  | none => m.bareSite names r

section Sites

variable {m} (names : List (Fin n × String)) (construct : String) (r : Fin n)

@[simp] theorem bareSite_index : (m.bareSite names r).index = m.graph.index r := by
  simp [bareSite, Outlook.site, outlook]

@[simp] theorem bareSite_retained : (m.bareSite names r).retained = !m.transient r := by
  simp [bareSite, Outlook.site, outlook]

@[simp] theorem bareSite_stored : (m.bareSite names r).stored = m.keeps r := by
  simp [bareSite, Outlook.site, outlook, Outlook.stored, Outlook.isRoot, keeps]

@[simp] theorem bareSite_inline : (m.bareSite names r).inline = none := rfl

theorem inlineSource?_outlook :
    m.outlook.inlineSource? r = if m.inlines r then (m.object r).source? else none := by
  have hinbound : m.outlook.inbound[r] = m.counted r := by simp [outlook]
  have hmerge : m.outlook.merge = m := rfl
  rw [Outlook.inlineSource?, hmerge, hinbound, inlines]
  cases m.object r <;> simp [Object.source?]

end Sites

def inlineCall? (r : Fin n) : Option (Nat × Nat) :=
  if m.inlines r then
    (m.object r).source?.bind fun source =>
      if m.graph.index r < m.graph.index m.representative[source] then
        some (m.graph.index r, m.graph.index m.representative[source])
      else none
  else none

variable {m} in
theorem fst_of_inlineCall? {r : Fin n} {pair : Nat × Nat} (h : m.inlineCall? r = some pair) :
    m.inlines r = true ∧ pair.1 = m.graph.index r := by
  unfold inlineCall? at h
  split at h
  · obtain ⟨source, _, hpair⟩ := Option.bind_eq_some_iff.mp h
    split at hpair
    · cases hpair
      exact ⟨by assumption, rfl⟩
    · cases hpair
  · cases h

section Source

variable {m} {keep : Bool} (hm : m.Lawful (m.graph.atoms keep)) (hk : m.graph.Kinded)

include hm hk

theorem source_representative {r source : Fin n} (hr : r ∈ m.representatives)
    (hsource : (m.object r).source? = some source) :
    source ∈ m.graph.order ∧ m.representative[source] ∈ m.representatives ∧
      m.representative[source] ∈ m.targets r ∧
      ∃ description geometry, m.object m.representative[source] = .canvas description geometry := by
  cases hobject : m.object r with
  | path description given =>
    rw [hobject] at hsource
    cases hsource
    have hmem := (mem_representatives.mp hr).1
    have hpart : (Demand.canvasGeometry, source) ∈ (m.object r).parts := by
      rw [hobject]
      exact List.mem_singleton_self _
    have hsourceMem := part_mem_order hm hmem hpart
    have hreference : source ∈ m.graph.outReferences r := by
      change source ∈ (m.object r).references
      rw [hobject]
      exact List.mem_singleton_self _
    refine ⟨hsourceMem, hm.representative_mem hsourceMem,
      List.mem_map.mpr ⟨source, hreference, rfl⟩, Object.exists_canvas ?_⟩
    rw [typeName_representative hm hsourceMem]
    exact Object.typeName_of_admits_canvas (hk.parts r hmem _ hpart)
  | composition base variant =>
    rw [hobject] at hsource
    cases hsource
  | canvas description geometry =>
    rw [hobject] at hsource
    cases hsource

omit hk in
theorem two_le_length_inReferences {i j : Fin n} (hi : i ∈ m.representatives)
    (hj : j ∈ m.representatives) (hij : j ∈ m.targets i) (hroot : j ≠ m.graph.root)
    (hle : m.graph.index j ≤ m.graph.index i) : 2 ≤ (m.inReferences j).length := by
  obtain ⟨k, hk', hkj, hlt⟩ := hm.exists_earlier_referencer hj hroot
  have hne : k ≠ i := by
    rintro rfl
    omega
  have hpair : [k, i].Subperm (m.inReferences j) := by
    refine List.subperm_of_subset (by simp [hne]) ?_
    intro x hx
    rcases List.mem_pair.mp hx with rfl | rfl
    · exact mem_inReferences.mpr ⟨hk', hkj⟩
    · exact mem_inReferences.mpr ⟨hi, hij⟩
  exact hpair.length_le

theorem refusal_source (names : List (Fin n × String)) {r source : Fin n}
    (hr : r ∈ m.representatives) (hsource : (m.object r).source? = some source) :
    Site.refusal (m.bareSite names r) (m.bareSite names m.representative[source]) false =
      none := by
  obtain ⟨_, hrep, htarget, description, geometry, hobject⟩ :=
    source_representative hm hk hr hsource
  generalize m.representative[source] = j at hrep htarget hobject
  have hretained : m.transient j = false := by
    simp [transient, isTransient, hobject, Object.isExpressionAnimation]
  have hroot : j ≠ m.graph.root := by
    rintro rfl
    have hvisual := hk.root
    change (m.object m.graph.root).isVisual = true at hvisual
    rw [hobject] at hvisual
    cases hvisual
  have hcounted : m.counted j = m.inReferences j := by
    simp [counted, hobject, Object.animators]
  by_cases hlt : m.graph.index r < m.graph.index j
  · simp [Site.refusal, Site.calls, hretained, hlt]
  · have htwo := two_le_length_inReferences hm hr hrep htarget hroot (Nat.le_of_not_lt hlt)
    have hkeeps : m.keeps j = true := by
      rw [keeps, if_neg hroot, hretained, hcounted]
      simp only [Bool.not_false, Bool.true_and, decide_eq_true_eq]
      omega
    simp [Site.refusal, hkeeps, hretained]

end Source

end Merge

namespace Plan

variable {n : Nat} {m : Merge n}

/-- A plan in which the paths of `done` have been looked at. -/
private structure Progress (m : Merge n) (names : List (Fin n × String)) (construct : String)
    (done : List (Fin n)) (p : Plan n) : Prop where
  outlook : p.outlook = m.outlook
  sites : ∀ r, p.sites[r] =
    if r ∈ done then m.finalSite names construct r else m.bareSite names r
  calls : p.calls = done.filterMap m.inlineCall?

theorem site_of_outlook {p : Plan n} (h : p.outlook = m.outlook) (i : Fin n) :
    p.site i = p.sites[m.representative[i]] := by
  have hmerge : p.merge = m := congrArg Outlook.merge h
  simp only [site, hmerge]

private theorem finalSite_of_not_inlines {names : List (Fin n × String)} {construct : String}
    {r : Fin n} (h : m.inlines r = false) :
    m.finalSite names construct r = m.bareSite names r := by
  unfold Merge.finalSite
  split
  · rw [if_neg (by simp [h])]
  · rfl

private theorem exists_source {r : Fin n} (h : m.inlines r = true) :
    ∃ source, (m.object r).source? = some source := by
  simp only [Merge.inlines, Bool.and_eq_true, Option.isSome_iff_exists] at h
  exact h.1

section FinalSite

variable (names : List (Fin n × String)) (construct : String) (r : Fin n)

private theorem finalSite_index : (m.finalSite names construct r).index = m.graph.index r := by
  unfold Merge.finalSite
  split
  · dsimp only
    split <;> exact Merge.bareSite_index names r
  · exact Merge.bareSite_index names r

private theorem finalSite_retained :
    (m.finalSite names construct r).retained = !m.transient r := by
  unfold Merge.finalSite
  split
  · dsimp only
    split <;> exact Merge.bareSite_retained names r
  · exact Merge.bareSite_retained names r

private theorem finalSite_inline :
    (m.finalSite names construct r).inline.isSome = m.inlines r := by
  cases hinlines : m.inlines r with
  | false => rw [finalSite_of_not_inlines hinlines, Merge.bareSite_inline, Option.isSome_none]
  | true =>
    obtain ⟨source, hsource⟩ := exists_source hinlines
    simp [Merge.finalSite, hsource, hinlines]

end FinalSite

variable {keep : Bool} (hm : m.Lawful (m.graph.atoms keep)) (hk : m.graph.Kinded)
  {names : List (Fin n × String)} {construct : String}

include hm hk

private theorem inlinePath_progress {done : List (Fin n)} {p : Plan n} {r : Fin n}
    (h : Progress m names construct done p) (hr : r ∈ m.representatives) (hnew : r ∉ done) :
    ∃ p', inlinePath construct p r = .ok p' ∧ Progress m names construct (done ++ [r]) p' := by
  obtain ⟨hmem, hself⟩ := Merge.mem_representatives.mp hr
  have hbare : p.sites[r] = m.bareSite names r := by rw [h.sites, if_neg hnew]
  unfold inlinePath
  rw [h.outlook, Merge.inlineSource?_outlook]
  cases hinlines : m.inlines r with
  | false =>
    refine ⟨p, rfl, h.outlook, fun i => ?_, ?_⟩
    · by_cases hi : i = r
      · subst hi
        rw [hbare, if_pos (by simp), finalSite_of_not_inlines hinlines]
      · simp only [h.sites i, List.mem_append, List.mem_singleton, hi, or_false]
    · simp [h.calls, Merge.inlineCall?, hinlines]
  | true =>
    obtain ⟨source, hsource⟩ := exists_source hinlines
    obtain ⟨_, hrep, _, _, _, hcanvas⟩ := Merge.source_representative hm hk hr hsource
    have hcaller : p.site r = m.bareSite names r := by
      simp only [site_of_outlook h.outlook, hself, hbare]
    have hcallee : p.site source = m.bareSite names m.representative[source] := by
      rw [site_of_outlook h.outlook, h.sites, finalSite_of_not_inlines, ite_self]
      simp only [Merge.inlines, hcanvas, Object.source?, Option.isSome_none, Bool.false_and]
    have hfresh : p.calls.contains ((m.bareSite names r).index,
        (m.bareSite names m.representative[source]).index) = false := by
      rw [Bool.eq_false_iff]
      intro hcontains
      rw [h.calls, List.contains_iff_mem, List.mem_filterMap] at hcontains
      obtain ⟨i, hi, hcall⟩ := hcontains
      have hindex := (Merge.fst_of_inlineCall? hcall).2
      rw [Merge.bareSite_index] at hindex
      exact hnew (Graph.index_inj hmem hindex ▸ hi)
    simp only [if_true, hsource, hcaller, hcallee, Site.resolve_eq, hfresh,
      Merge.refusal_source hm hk names hr hsource]
    refine ⟨_, rfl, rfl, fun i => ?_, ?_⟩
    · by_cases hi : i = r
      · subst hi
        simp [Merge.finalSite, hsource, hinlines, hbare]
      · have hvalue : (r : Nat) ≠ i := fun hval => hi (Fin.ext hval.symm)
        have hsite := h.sites i
        simp only [getElem_place] at hsite ⊢
        rw [Vector.getElem_set_ne _ _ hvalue, hsite]
        simp only [List.mem_append, List.mem_singleton, hi, or_false]
    · change (if Site.calls (m.bareSite names r)
        (m.bareSite names m.representative[source]) false = true then _ else _) = _
      have hcall : m.inlineCall? r =
          if Site.calls (m.bareSite names r) (m.bareSite names m.representative[source]) false
          then some ((m.bareSite names r).index, (m.bareSite names m.representative[source]).index)
          else none := by
        simp [Merge.inlineCall?, hinlines, hsource, Site.calls]
      rw [List.filterMap_append, ← h.calls]
      split
      · rename_i hcalls
        rw [if_pos hcalls] at hcall
        simp [hcall]
      · rename_i hcalls
        rw [if_neg hcalls] at hcall
        simp [hcall]

private theorem foldlM_progress (todo : List (Fin n)) {done : List (Fin n)} {p : Plan n}
    (h : Progress m names construct done p) (hsub : todo ⊆ m.representatives)
    (hnodup : (done ++ todo).Nodup) :
    ∃ p', todo.foldlM (inlinePath construct) p = .ok p' ∧
      Progress m names construct (done ++ todo) p' := by
  induction todo generalizing done p with
  | nil => exact ⟨p, rfl, by simpa using h⟩
  | cons r todo ih =>
    obtain ⟨hr, hrest⟩ := List.cons_subset.mp hsub
    have hnew : r ∉ done := fun hmem =>
      (List.nodup_append.mp hnodup).2.2 r hmem r List.mem_cons_self rfl
    obtain ⟨p₁, hp₁, hprogress₁⟩ := inlinePath_progress hm hk h hr hnew
    obtain ⟨p₂, hp₂, hprogress₂⟩ := ih hprogress₁ hrest (by simpa using hnodup)
    refine ⟨p₂, ?_, by simpa using hprogress₂⟩
    rw [List.foldlM_cons, hp₁]
    exact hp₂

/-- What a plan says about a merged graph. -/
structure Follows (p : Plan n) (m : Merge n) (construct : String) : Prop where
  merge : p.merge = m
  found : ∀ i ∈ m.bound, i ∈ m.graph.order
  index : ∀ r, p.sites[r].index = m.graph.index r
  retained : ∀ r, p.sites[r].retained = !m.transient r
  inline : ∀ r ∈ m.representatives, p.sites[r].inline.isSome = m.inlines r
  stored : ∀ r ∈ m.representatives, m.inlines r = false → p.sites[r].stored = m.keeps r
  text : ∀ r ∈ m.representatives, ∀ text, p.sites[r].inline = some text →
    ∃ source, (m.object r).source? = some source ∧
      Site.refusal p.sites[r] p.sites[m.representative[source]] false = none ∧
      text = construct ++ " CompositionPath(" ++
        (Site.accessOf p.sites[r] p.sites[m.representative[source]] false).text ++ ")"
  calls : p.calls = m.representatives.filterMap m.inlineCall?

private theorem follows_of_sites {p : Plan n} (hfound : ∀ i ∈ m.bound, i ∈ m.graph.order)
    (hmerge : p.merge = m)
    (hsites : ∀ r ∈ m.representatives, p.sites[r] = m.finalSite names construct r)
    (hkept : ∀ r, p.sites[r].index = m.graph.index r ∧ p.sites[r].retained = !m.transient r)
    (hcalls : p.calls = m.representatives.filterMap m.inlineCall?) : p.Follows m construct := by
  refine ⟨hmerge, hfound, fun r => (hkept r).1, fun r => (hkept r).2, fun r hr => ?_,
    fun r hr hnot => ?_, fun r hr text htext => ?_, hcalls⟩
  · rw [hsites r hr]
    exact finalSite_inline names construct r
  · rw [hsites r hr, finalSite_of_not_inlines hnot]
    exact Merge.bareSite_stored names r
  · have hinlines : m.inlines r = true := by
      rw [← finalSite_inline names construct r, ← hsites r hr, htext]
      rfl
    obtain ⟨source, hsource⟩ := exists_source hinlines
    obtain ⟨_, hrep, _, _, _, hcanvas⟩ := Merge.source_representative hm hk hr hsource
    have hcallee : p.sites[m.representative[source]] =
        m.bareSite names m.representative[source] := by
      rw [hsites _ hrep, finalSite_of_not_inlines]
      simp only [Merge.inlines, hcanvas, Object.source?, Option.isSome_none, Bool.false_and]
    have hcaller := hsites r hr
    simp only [Merge.finalSite, hsource, hinlines, if_true] at hcaller
    refine ⟨source, hsource, ?_, ?_⟩
    · rw [hcaller, hcallee]
      exact Merge.refusal_source hm hk names hr hsource
    · rw [hcaller] at htext
      rw [hcaller, hcallee]
      exact (Option.some.inj htext).symm

theorem named_follows (baseName : Fin n → String) (construct : String)
    (hfound : ∀ i ∈ m.bound, i ∈ m.graph.order) :
    ∃ p, named m baseName construct = .ok p ∧ p.Follows m construct := by
  let names := m.outlook.names baseName
  have hstart : Progress m names construct []
      ⟨m.outlook, Vector.ofFn (m.outlook.site names), []⟩ := by
    refine ⟨rfl, fun r => ?_, rfl⟩
    simp [Merge.bareSite]
  have hretained : ∀ r, r ∈ m.outlook.retained ↔ r ∈ m.representatives ∧ m.transient r = false := by
    intro r
    simp [Outlook.retained, Merge.outlook]
  obtain ⟨p, hp, hprogress⟩ := foldlM_progress hm hk m.outlook.retained hstart
    (fun r hr => ((hretained r).mp hr).1)
    (hm.nodup_representatives.filter _)
  have hsites : ∀ r ∈ m.representatives, p.sites[r] = m.finalSite names construct r := by
    intro r hr
    rw [hprogress.sites]
    split
    · rfl
    · rename_i hnot
      have htransient : m.transient r = true := by
        by_contra hfalse
        exact hnot ((hretained r).mpr ⟨hr, by simpa using hfalse⟩)
      rw [finalSite_of_not_inlines (m.not_inlines_of_transient htransient)]
  refine ⟨p, ?_, follows_of_sites hm hk hfound (congrArg Outlook.merge hprogress.outlook) hsites
    (fun r => ?_) ?_⟩
  · rw [named, Merge.ofMerge_eq_outlook m hfound]
    exact hp
  · rw [hprogress.sites]
    split
    · exact ⟨finalSite_index names construct r, finalSite_retained names construct r⟩
    · exact ⟨Merge.bareSite_index names r, Merge.bareSite_retained names r⟩
  · -- a transient animation is no path, so leaving it out changes nothing
    rw [hprogress.calls, List.nil_append, Outlook.retained, List.filterMap_filter]
    refine List.filterMap_congr fun r _ => ?_
    cases htransient : m.transient r with
    | false => simp [Merge.outlook, htransient]
    | true => simp [Merge.outlook, Merge.inlineCall?, htransient, m.not_inlines_of_transient htransient]

omit hm hk in
theorem named_error (baseName : Fin n → String) (construct : String)
    (h : ∃ i ∈ m.bound, i ∉ m.graph.order) :
    ∃ type, named m baseName construct = .error (.outsideGraph type) := by
  obtain ⟨i, hi⟩ := Merge.ofMerge_error m h
  refine ⟨(m.object i).typeName, ?_⟩
  rw [named, hi]
  rfl

end Plan

end SceneCompiler
