import SceneCompiler.Proofs.Compile.CallGraph
import SceneCompiler.Proofs.Compile.Names
import SceneCompiler.Proofs.Merge.Completeness

/-!
# Paths written inline

A path is asked for as often as it is referred to, because whatever refers to a path has a factory.
The text of a path that is written inline spells how its source is obtained.  Outlines that are made
from the same outlines are merged, so that text belongs to one path, and it stands in one place.
-/

namespace SceneCompiler

variable {n : Nat}

/-! ## Outlines -/

def Atom.OfOutline (fields : List Atom) : Prop :=
  fields.head? = some (.text "CompositionPath") ∨ fields.head? = some (.text "CanvasGeometry")

theorem Object.ofOutline_iff {ρ : Type} {keep : Bool} {o : Object ρ} {fields : List Atom}
    (h : o.atoms? keep = some fields) : Atom.OfOutline fields ↔ o.isOutline = true := by
  rw [Atom.OfOutline, head?_of_atoms? h, isOutline_iff]
  simp

theorem Object.not_isOutline_of_admits {ρ : Type} {o : Object ρ}
    (h : Demand.compositionObject.admits o = true) : o.isOutline = false := by
  cases o with
  | composition base variant => rfl
  | path description source => cases h
  | canvas description geometry => cases h

namespace Graph.Kinded

variable {g : Graph n} (hk : g.Kinded)

include hk

theorem exists_rank_outlines (keep : Bool) :
    ∃ rank : Fin n → Nat, ∀ i r, g.HasPart keep i r → (g.object i).isOutline = true →
      (g.object r).isOutline = true ∧ rank r < rank i := by
  obtain ⟨rank, hrank⟩ := hk.ranked
  refine ⟨rank, fun i r ⟨hi, _, hr⟩ houtline => ?_⟩
  change r ∈ (g.object i).references at hr
  rw [Object.references_of_isOutline houtline] at hr
  obtain ⟨part, hpart, rfl⟩ := List.mem_map.mp hr
  refine ⟨Object.isOutline_of_admits (hk.parts i hi part (List.mem_of_mem_take hpart)) ?_,
    hrank i hi part hpart⟩
  rcases Object.outline_demand_of_mem_take hpart with h | h
  · exact .inl h
  · exact .inr h.1

theorem founded_outlines (keep : Bool) : g.Founded keep Atom.OfOutline := by
  obtain ⟨rank, hrank⟩ := hk.exists_rank_outlines keep
  have houtline : ∀ i r, g.HasPart keep i r → g.Within keep Atom.OfOutline i →
      (g.object i).isOutline = true := by
    intro i r ⟨_, hsome, _⟩ hwithin
    obtain ⟨fields, hfields⟩ := Option.isSome_iff_exists.mp hsome
    exact (Object.ofOutline_iff hfields).mp (hwithin fields hfields)
  refine ⟨fun i r hpart hwithin fields hfields => ?_, fun i hwithin hcycle => ?_⟩
  · exact (Object.ofOutline_iff hfields).mpr (hrank i r hpart (houtline i r hpart hwithin)).1
  · have hdescends : ∀ r, Relation.TransGen (g.HasPart keep) i r →
        (g.object r).isOutline = true ∧ rank r < rank i := by
      intro r h
      induction h with
      | single h => exact hrank _ _ h (houtline _ _ h hwithin)
      | tail _ h ih =>
        obtain ⟨hr, hlt⟩ := hrank _ _ h ih.1
        exact ⟨hr, Nat.lt_trans hlt ih.2⟩
    exact Nat.lt_irrefl _ (hdescends i hcycle).2

end Graph.Kinded

namespace Merge

theorem eq_of_targets {g : Graph n} {keep : Bool} (hg : g.Ordered) (hk : g.Kinded) {r s : Fin n}
    (hr : r ∈ (g.merged keep).representatives) (hs : s ∈ (g.merged keep).representatives)
    {fields : List Atom} (hfields : g.atoms keep r = some fields)
    (hfields' : g.atoms keep s = some fields) (houtline : Atom.OfOutline fields)
    (h : (g.merged keep).targets r = (g.merged keep).targets s) : r = s := by
  obtain ⟨hrmem, hrself⟩ := mem_representatives.mp hr
  obtain ⟨hsmem, hsself⟩ := mem_representatives.mp hs
  rw [← hrself, ← hsself]
  refine (representative_eq_iff g (g.atoms keep) hrmem hsmem).mpr
    (groupOf_eq_of_references hg (hk.founded_outlines keep) hrmem hsmem hfields hfields' houtline ?_)
  refine List.forall₂_eq_eq_eq ▸ ?_
  rw [← List.forall₂_eq_eq_eq] at h
  rw [targets, targets, List.forall₂_map_left_iff, List.forall₂_map_right_iff,
    List.forall₂_iff_zip] at h
  rw [List.forall₂_map_left_iff, List.forall₂_map_right_iff, List.forall₂_iff_zip]
  refine ⟨h.1, fun {a b} hmem => ?_⟩
  obtain ⟨ha, hb⟩ := List.of_mem_zip hmem
  exact (representative_eq_iff g (g.atoms keep) (hg.closed r hrmem ha)
    (hg.closed s hsmem hb)).mp (h.2 hmem)

variable {m : Merge n} {keep : Bool} (hm : m.Lawful (m.graph.atoms keep)) (hk : m.graph.Kinded)

include hm hk

theorem not_mem_targets_of_expression {e j : Fin n} (he : e ∈ m.graph.order)
    (hexpression : (m.object e).isExpressionAnimation = true)
    (hj : (m.object j).isOutline = true) : j ∉ m.targets e := by
  intro hmem
  obtain ⟨k, hk', rfl⟩ := List.mem_map.mp hmem
  change k ∈ (m.object e).references at hk'
  rw [Object.references_of_isExpressionAnimation hexpression, Object.mem_parameterTargets] at hk'
  rw [isOutline_representative hm (part_mem_order hm he hk')] at hj
  exact absurd (hj.symm.trans (Object.not_isOutline_of_admits (hk.parts e he _ hk'))) (by simp)

theorem inlines_path_iff {r : Fin n} (hr : r ∈ m.representatives) {description : Description}
    {source : Fin n} (hobject : m.object r = .path description source) :
    (m.inlines r = true ↔ (m.inReferences r).length = 1) ∧ m.keeps r = !m.inlines r := by
  have hroot : r ≠ m.graph.root := by
    rintro rfl
    have hvisual := hk.root
    change (m.object m.graph.root).isVisual = true at hvisual
    rw [hobject] at hvisual
    cases hvisual
  obtain ⟨k, hkmem, hkr, _⟩ := hm.exists_earlier_referencer hr hroot
  have hpos := List.length_pos_of_mem (mem_inReferences.mpr ⟨hkmem, hkr⟩)
  have hcounted : m.counted r = m.inReferences r := by simp [counted, hobject, Object.animators]
  have htransient : m.transient r = false := by
    simp [transient, isTransient, hobject, Object.isExpressionAnimation]
  simp only [inlines, keeps, hobject, hcounted, htransient, if_neg hroot, Object.source?,
    Option.isSome_some, Bool.true_and, Bool.not_false, decide_eq_true_eq, ← decide_not]
  refine ⟨by omega, ?_⟩
  rw [decide_eq_decide]
  omega

end Merge

/-! ## Requests for paths -/

namespace Plan.Follows

variable {p : Plan n} {m : Merge n} {construct : String} (hp : p.Follows m construct) {keep : Bool}
  (hm : m.Lawful (m.graph.atoms keep)) (hk : m.graph.Kinded) {j : Fin n} {description : Description}
  {source : Fin n} (hj : m.object j = .path description source)

include hp hm hk hj

theorem count_callee_references (s : Settings) {r : Fin n} (hr : r ∈ m.representatives) :
    ((p.factory s r).references.map Request.callee).count j = (m.targets r).count j := by
  rw [hp.references_factory hm s hr, Merge.targets_eq_append, List.map_append, List.count_append,
    List.count_append, List.map_map, List.map_flatMap]
  refine congrArg _ ?_
  have hleg : ∀ k ∈ (animatorReferences (m.object r).started).map fun i => m.representative[i],
      ((m.leg r k).map Request.callee).count j = [k].count j := by
    intro k hkmem
    unfold Merge.leg
    split
    · -- neither a transient animation nor what it refers to is a path
      rename_i htransient
      have hexpression := (Merge.transient_spec htransient).1
      have hne : k ≠ j := by
        rintro rfl
        rw [hj] at hexpression
        cases hexpression
      have horder : k ∈ m.graph.order := by
        refine (Merge.mem_representatives.mp (hm.targets_subset
          (Merge.mem_representatives.mp hr).1 ?_)).1
        rw [Merge.targets_eq_append]
        exact List.mem_append_right _ hkmem
      have hnot := Merge.not_mem_targets_of_expression hm hk horder hexpression
        (by rw [hj]; rfl : (m.object j).isOutline = true)
      rw [List.count_singleton, if_neg (by simpa using hne), List.count_eq_zero, List.map_map]
      intro hmem
      obtain ⟨i, hi, rfl⟩ := List.mem_map.mp hmem
      exact hnot (List.mem_of_mem_filter hi)
    · rfl
  calc _ = (((animatorReferences (m.object r).started).map fun i => m.representative[i]).flatMap
        fun k => [k]).count j := by
        rw [List.count_flatMap, List.count_flatMap]
        exact congrArg List.sum (List.map_congr_left hleg)
    _ = _ := by rw [List.flatMap_singleton']

theorem mem_withFactory_of_path {r : Fin n} (hr : r ∈ m.representatives) (hmem : j ∈ m.targets r) :
    r ∈ p.withFactory := by
  refine hp.mem_withFactory.mpr ⟨hr, ?_, ?_⟩
  · by_contra htransient
    have hexpression := (Merge.transient_spec (by simpa using htransient)).1
    exact Merge.not_mem_targets_of_expression hm hk (Merge.mem_representatives.mp hr).1 hexpression
      (by rw [hj]; rfl) hmem
  · by_contra hinlines
    rw [Bool.not_eq_false] at hinlines
    obtain ⟨description', given, hobject⟩ := Merge.exists_path hinlines
    have hsource : (m.object r).source? = some given := by
      rw [hobject]
      rfl
    obtain ⟨_, _, htarget, _, _, hcanvas⟩ := Merge.source_representative hm hk hr hsource
    obtain ⟨only, _, htargets, _⟩ := hp.inlined?_eq hm hk hr hinlines
    rw [htargets, List.mem_singleton] at hmem htarget
    rw [htarget, ← hmem, hj] at hcanvas
    cases hcanvas

theorem sum_count_targets :
    (p.withFactory.map fun r => (m.targets r).count j).sum = (m.inReferences j).length := by
  have hothers : ((m.representatives.filter fun r => !p.sites[r].hasFactory).map
      fun r => (m.targets r).count j).sum = 0 := by
    refine List.sum_eq_zero fun x hx => ?_
    obtain ⟨r, hr, rfl⟩ := List.mem_map.mp hx
    obtain ⟨hrep, hnone⟩ := List.mem_filter.mp hr
    rw [List.count_eq_zero]
    intro hmem
    have hfactory := hp.mem_withFactory_of_path hm hk hj hrep hmem
    rw [withFactory, List.mem_mergeSort] at hfactory
    rw [(List.mem_filter.mp hfactory).2] at hnone
    cases hnone
  have hperm := (List.filter_append_perm (fun r => p.sites[r].hasFactory) m.representatives).map
    fun r => (m.targets r).count j
  have hmerge := hp.merge
  rw [Merge.length_inReferences, ← hperm.sum_eq, List.map_append, List.sum_append, hothers,
    withFactory, hmerge]
  exact ((List.mergeSort_perm _ _).map _).sum_eq

end Plan.Follows

/-! ## The texts of paths -/

namespace IsName

theorem space_not_mem {name : String} (h : IsName name) : ' ' ∉ name.toList := by
  obtain ⟨c, rest, hname, hc, hrest⟩ := h
  rw [hname]
  intro hmem
  rcases List.mem_cons.mp hmem with rfl | hmem
  · cases hc
  · rcases hrest ' ' hmem with h | h <;> cases h

end IsName

namespace Site

variable {caller callee : Site} {again : Bool}

theorem accessOf_of_inline {text : String} (hinline : callee.inline = some text) :
    accessOf caller callee again = .inline text := by
  rw [accessOf, hinline]

theorem retained_of_granted (hinline : callee.inline = none)
    (hrefusal : refusal caller callee again = none) : callee.retained = true := by
  cases hretained : callee.retained with
  | true => rfl
  | false => simp [refusal, hinline, hretained] at hrefusal

theorem text_of_not_inline (caller : Site) (again : Bool) (hinline : callee.inline = none) :
    (accessOf caller callee again).text = callee.name ++ "()" ∨
      (accessOf caller callee again).text = callee.fieldName := by
  unfold accessOf
  rw [hinline]
  dsimp only
  split
  · exact .inl (by simp [Access.text, factoryCall, hinline])
  · exact .inr rfl

theorem space_not_mem_text (caller : Site) (again : Bool) (hname : IsName callee.name)
    (hinline : callee.inline = none) :
    ' ' ∉ (accessOf caller callee again).text.toList := by
  rcases text_of_not_inline caller again hinline with htext | htext
  · rw [htext, String.toList_append, List.mem_append, not_or]
    exact ⟨hname.space_not_mem, by decide⟩
  · have hspace := hname.space_not_mem
    obtain ⟨c, rest, hchars, hc, _⟩ := hname
    have hletter : ∀ k < 0x80, (Char.ofNat k).isUpper = true →
        (Char.ofNat k).toLower ≠ ' ' := by decide
    have hfirst := hletter c.toNat (toNat_lt_of_isAlphanum (IsName.isAlphanum_of_isUpper hc))
    rw [Char.ofNat_toNat] at hfirst
    rw [hchars, List.mem_cons, not_or] at hspace
    rw [htext, toList_fieldName hchars hc, List.mem_cons, List.mem_cons, not_or, not_or]
    exact ⟨by decide, (hfirst hc).symm, hspace.2⟩

theorem name_eq_of_text {caller' callee' : Site} {again' : Bool} (hname : IsName callee.name)
    (hname' : IsName callee'.name) (hinline : callee.inline = none)
    (hinline' : callee'.inline = none)
    (h : (accessOf caller callee again).text = (accessOf caller' callee' again').text) :
    callee.name = callee'.name := by
  -- a call starts with a capital letter, a field with an underscore
  have hdiffer {s t : Site} (hs : IsName s.name) (ht : IsName t.name) :
      s.name ++ "()" ≠ t.fieldName := by
    intro heq
    obtain ⟨c, rest, hchars, hc, _⟩ := hs
    obtain ⟨d, rest', hchars', hd, _⟩ := ht
    have hlists := congrArg String.toList heq
    rw [String.toList_append, hchars, toList_fieldName hchars' hd, List.cons_append,
      List.cons.injEq] at hlists
    rw [hlists.1] at hc
    cases hc
  rcases text_of_not_inline caller again hinline with htext | htext <;>
    rcases text_of_not_inline caller' again' hinline' with htext' | htext' <;>
    rw [htext, htext'] at h
  · exact (String.append_left_inj _).mp h
  · exact absurd h (hdiffer hname hname')
  · exact absurd h.symm (hdiffer hname' hname)
  · exact eq_of_fieldName hname hname' h

end Site

def Program.replies (program : Program n) : List (Reply n) :=
  program.factories.flatMap fun entry => entry.2.references

namespace Graph.Writes

variable {g : Graph n} {o : Options} {c : Compilation n} {program : Program n}
  (h : g.Writes o c program)

include h

theorem count_callee_replies {r : Fin n} {description : Description} {source : Fin n}
    (hobject : g.object r = .path description source) :
    (program.replies.map fun reply => reply.callee).count r =
      ((g.merged o.setComments).inReferences r).length := by
  have hm := h.lawful
  have hentries : ∀ entry ∈ program.factories,
      (entry.2.references.map fun reply => reply.callee).count r =
        ((g.merged o.setComments).targets entry.1).count r := by
    intro entry hentry
    have hfactory := (h.exists_asked hentry).1
    rw [← h.follows.count_callee_references hm h.kinded hobject ⟨o.durationMs, o.setComments⟩
      (h.follows.mem_withFactory.mp hfactory).1, ← h.map_toRequest_references hentry,
      List.map_map]
    rfl
  rw [Program.replies, List.map_flatMap, List.count_flatMap,
    ← h.follows.sum_count_targets hm h.kinded hobject, h.plan, ← h.map_fst_factories, List.map_map]
  exact congrArg List.sum (List.map_congr_left hentries)

variable (hnamed : program.plan.WellNamed)

include hnamed

theorem eq_of_inline {r s : Fin n} (hr : r ∈ (g.merged o.setComments).representatives)
    (hs : s ∈ (g.merged o.setComments).representatives) {text : String}
    (htext : program.plan.sites[r].inline = some text)
    (htext' : program.plan.sites[s].inline = some text) : r = s := by
  have hm := h.lawful
  have hinlines {i : Fin n} (hi : i ∈ (g.merged o.setComments).representatives)
      (hinline : program.plan.sites[i].inline = some text) :
      (g.merged o.setComments).inlines i = true := by
    rw [← h.follows.inline i hi, hinline]
    rfl
  have hatoms {i : Fin n} (hi : i ∈ (g.merged o.setComments).representatives)
      (hinline : program.plan.sites[i].inline = some text) :
      g.atoms o.setComments i = some [.text "CompositionPath"] := by
    obtain ⟨description, source, hobject⟩ := Merge.exists_path (hinlines hi hinline)
    change (g.object i).atoms? _ = _
    rw [show g.object i = .path description source from hobject]
    rfl
  obtain ⟨a, ha, htargets, _, _, hspelled⟩ :=
    h.follows.inlined?_eq hm h.kinded hr (hinlines hr htext)
  obtain ⟨b, hb, htargets', _, _, hspelled'⟩ :=
    h.follows.inlined?_eq hm h.kinded hs (hinlines hs htext')
  have hsame : (program.plan.accessOf [] ⟨r, a⟩).text = (program.plan.accessOf [] ⟨s, b⟩).text := by
    have heq := Option.some.inj ((htext.symm.trans hspelled).symm.trans (htext'.symm.trans hspelled'))
    exact (String.append_right_inj _).mp ((String.append_left_inj _).mp heq)
  have hplain {i : Fin n} (hi : i ∈ program.plan.withFactory) :
      program.plan.sites[i].inline = none := by
    obtain ⟨hrep, _, hnot⟩ := h.follows.mem_withFactory.mp hi
    rw [← h.follows.inline i hrep] at hnot
    simpa using hnot
  have hname := Site.name_eq_of_text
    (hnamed.legal a (hnamed.factories_retained ha)) (hnamed.legal b (hnamed.factories_retained hb))
    (hplain ha) (hplain hb) hsame
  obtain rfl := hnamed.distinct a (hnamed.factories_retained ha) b (hnamed.factories_retained hb) hname
  exact Merge.eq_of_targets h.ordered h.kinded hr hs (hatoms hr htext) (hatoms hs htext') (.inl rfl)
    (htargets.trans htargets'.symm)

theorem text_eq_inline_iff {r : Fin n} (hr : r ∈ (g.merged o.setComments).representatives)
    {text : String} (htext : program.plan.sites[r].inline = some text) {reply : Reply n}
    (hreply : reply ∈ program.replies) : reply.access.text = text ↔ reply.callee = r := by
  obtain ⟨entry, hentry, hmem⟩ := List.mem_flatMap.mp hreply
  obtain ⟨again, haccess, hrefusal⟩ := (h.exists_asked hentry).2.1 reply hmem
  have hcallee := h.callee_mem_representatives hentry hmem
  rw [haccess]
  constructor
  · intro heq
    cases hinline : program.plan.sites[reply.callee].inline with
    | some text' =>
      rw [Site.accessOf_of_inline hinline] at heq
      exact h.eq_of_inline hnamed hcallee hr (hinline.trans (congrArg some heq)) htext
    | none =>
      have hretained := Site.retained_of_granted hinline hrefusal
      have hfactory : reply.callee ∈ program.plan.withFactory := by
        refine h.follows.mem_withFactory.mpr ⟨hcallee, ?_, ?_⟩
        · rw [h.follows.retained] at hretained
          simpa using hretained
        · rw [← h.follows.inline _ hcallee, hinline]
          rfl
      have hspace := Site.space_not_mem_text program.plan.sites[reply.caller] again
        (hnamed.legal _ (hnamed.factories_retained hfactory)) hinline
      obtain ⟨_, _, _, _, _, hspelled⟩ := h.follows.inlined?_eq
        h.lawful h.kinded hr (by rw [← h.follows.inline r hr, htext]; rfl)
      rw [heq, ← Option.some.inj (hspelled.symm.trans htext)] at hspace
      simp at hspace
  · rintro rfl
    rw [Site.accessOf_of_inline htext]
    rfl

end Graph.Writes

theorem ofMerge_of_compile {heap : Heap n} {root : Fin n} {o : Options} {c : Compilation n}
    (h : compile heap root o = .ok c) :
    Plan.ofMerge ((Graph.ofRoot heap root).merged o.setComments) o.dialect.newOperator =
      .ok c.plan := by
  obtain ⟨p, hplan, hwrite⟩ := bind_eq_ok_iff.mp h
  rw [Plan.plan_of_write hwrite]
  exact hplan

/-- In a compiled scene a path is written inline exactly if it is referred to once.  It then has neither
a factory nor a field, and its text answers one request in the whole program, which is the one for it.
Every other path has a factory and a field. -/
theorem paths_inline_once {json : Option Json} {path : String} {scene : Scene}
    (hload : Scene.load json path = .ok scene) {o : Options} {c : Compilation scene.size}
    (hcompile : compile scene.heap scene.root o = .ok c) :
    ∃ program, c.plan.program ⟨o.durationMs, o.setComments⟩ = .ok program ∧
      c.code = program.code o ∧
      ∀ r ∈ c.plan.merge.representatives, ∀ description source,
        c.plan.merge.object r = .path description source →
        (c.plan.sites[r].inline.isSome = true ↔ (c.plan.merge.inReferences r).length = 1) ∧
        (∀ text, c.plan.sites[r].inline = some text →
          r ∉ c.plan.withFactory ∧ r ∉ c.plan.withField ∧
            ∃ reply, program.replies.filter (fun reply => reply.access.text == text) = [reply] ∧
              reply.callee = r) ∧
        (c.plan.sites[r].inline = none → r ∈ c.plan.withFactory ∧ r ∈ c.plan.withField) := by
  obtain ⟨program, h⟩ := Scene.exists_writes hload hcompile
  have hm := h.lawful
  have hnamed : program.plan.WellNamed := by
    rw [h.plan]
    refine Plan.wellNamed hm h.kinded (fun r => ?_) (ofMerge_of_compile hcompile)
    exact Naming.isBase_baseName (Scene.isSegment_color hload r) (Scene.isSegment_color hload)
  refine ⟨program, h.answered, h.code, ?_⟩
  rw [← h.plan, h.follows.merge]
  intro r hr description source hobject
  obtain ⟨hiff, hkeeps⟩ := Merge.inlines_path_iff hm h.kinded hr hobject
  have hinline := h.follows.inline r hr
  refine ⟨hinline ▸ hiff, fun text htext => ?_, fun hnone => ?_⟩
  · have hinlines : ((Graph.ofRoot scene.heap scene.root).merged o.setComments).inlines r = true := by
      rw [← hinline, htext]
      rfl
    have hfactory : r ∉ program.plan.withFactory := by
      intro hmem
      rw [(h.follows.mem_withFactory.mp hmem).2.2] at hinlines
      cases hinlines
    refine ⟨hfactory, fun hfield => hfactory (List.mem_of_mem_filter hfield), ?_⟩
    have hcount := h.count_callee_replies hobject
    rw [hiff.mp hinlines, List.count, List.countP_map, List.countP_eq_length_filter,
      List.length_eq_one_iff] at hcount
    obtain ⟨reply, hreply⟩ := hcount
    refine ⟨reply, ?_, ?_⟩
    · rw [← hreply]
      refine List.filter_congr fun other hother => ?_
      rw [Bool.eq_iff_iff, Function.comp_apply, beq_iff_eq, beq_iff_eq]
      exact h.text_eq_inline_iff hnamed hr htext hother
    · have hmem : reply ∈ [reply] := List.mem_singleton_self _
      rw [← hreply] at hmem
      exact eq_of_beq (List.mem_filter.mp hmem).2
  · have hinlines : ((Graph.ofRoot scene.heap scene.root).merged o.setComments).inlines r = false := by
      rw [← hinline, hnone]
      rfl
    have hfactory : r ∈ program.plan.withFactory := by
      refine h.follows.mem_withFactory.mpr ⟨hr, ?_, hinlines⟩
      simp [Merge.transient, Merge.isTransient, hobject, Object.isExpressionAnimation]
    refine ⟨hfactory, List.mem_filter.mpr ⟨hfactory, ?_⟩⟩
    rw [h.follows.stored r hr hinlines, hkeeps, hinlines]
    rfl

/-- Two paths with sources that are the same ellipse, which are merged, and one that is made from both
sources. -/
def sharedPathDocument : Option Json :=
  Scene.documentOf [
    ("root", .object [("type", .string "ShapeVisual"),
      ("shapes", .array [.string "s", .string "t", .string "u"])]),
    ("s", .object [("type", .string "CompositionSpriteShape"), ("geometry", .string "g")]),
    ("t", .object [("type", .string "CompositionSpriteShape"), ("geometry", .string "h")]),
    ("u", .object [("type", .string "CompositionSpriteShape"), ("geometry", .string "i")]),
    ("g", .object [("type", .string "CompositionPathGeometry"), ("path", .string "p")]),
    ("h", .object [("type", .string "CompositionPathGeometry"), ("path", .string "p2"),
      ("trimStart", .number 1)]),
    ("i", .object [("type", .string "CompositionPathGeometry"), ("path", .string "r")]),
    ("p", .object [("type", .string "CompositionPath"), ("source", .string "q")]),
    ("p2", .object [("type", .string "CompositionPath"), ("source", .string "q2")]),
    ("r", .object [("type", .string "CompositionPath"), ("source", .string "v")]),
    ("q", .object [("type", .string "CanvasGeometry"), ("geometryType", .string "Ellipse"),
      ("x", .number 0), ("y", .number 0), ("radiusX", .number 1), ("radiusY", .number 2)]),
    ("q2", .object [("type", .string "CanvasGeometry"), ("geometryType", .string "Ellipse"),
      ("x", .number 0), ("y", .number 0), ("radiusX", .number 1), ("radiusY", .number 2)]),
    ("v", .object [("type", .string "CanvasGeometry"), ("geometryType", .string "Combination"),
      ("a", .string "q"), ("b", .string "q2"), ("combineMode", .string "Union")])]

def Plan.pathTexts (p : Plan n) : List (Nat × Option String) :=
  p.merge.representatives.filterMap fun r =>
    (p.merge.object r).source?.map fun _ => ((p.merge.inReferences r).length, p.sites[r].inline)

theorem paths_inline_sharedPath :
    ∃ scene, Scene.load sharedPathDocument "scene.json" = .ok scene ∧
      ∃ c, compile scene.heap scene.root
          { className := "Scene", width := 100, height := 100, durationMs := 1000 } = .ok c ∧
        c.plan.pathTexts = [(2, none), (1, some "new CompositionPath(Geometry_001())")] ∧
        ∃ program, c.plan.program ⟨1000, false⟩ = .ok program ∧
          ∃ reply, program.replies.filter (fun reply =>
            reply.access.text == "new CompositionPath(Geometry_001())") = [reply] := by
  refine Scene.exists_compiles (by decide +kernel) fun scene hload c hcompile
    (hplan : ((Plan.ofMerge ((Graph.ofRoot scene.heap scene.root).merged false) "new").toOption.any
      fun p => decide (p.pathTexts =
        [(2, none), (1, some "new CompositionPath(Geometry_001())")])) = true) => ?_
  have htexts : c.plan.pathTexts = [(2, none), (1, some "new CompositionPath(Geometry_001())")] := by
    have hdrawn := ofMerge_of_compile hcompile
    dsimp only at hdrawn
    rw [hdrawn] at hplan
    exact of_decide_eq_true hplan
  obtain ⟨program, hprogram, _, hpaths⟩ := paths_inline_once hload hcompile
  refine ⟨htexts, program, hprogram, ?_⟩
  have hmem : (1, some "new CompositionPath(Geometry_001())") ∈ c.plan.pathTexts := by
    rw [htexts]
    simp
  obtain ⟨r, hr, hpath⟩ := List.mem_filterMap.mp hmem
  obtain ⟨source, hsource, hinline⟩ := Option.map_eq_some_iff.mp hpath
  cases hobject : c.plan.merge.object r with
  | path description given =>
    obtain ⟨_, honce, _⟩ := hpaths r hr description given hobject
    obtain ⟨_, _, reply, hreply, _⟩ := honce _ (Prod.mk.inj hinline).2
    exact ⟨reply, hreply⟩
  | composition base variant =>
    rw [hobject] at hsource
    cases hsource
  | canvas description geometry =>
    rw [hobject] at hsource
    cases hsource

end SceneCompiler
