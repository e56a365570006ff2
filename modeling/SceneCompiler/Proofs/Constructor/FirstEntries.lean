import Mathlib.Data.Fintype.Card
import Mathlib.Logic.Relation
import SceneCompiler.Proofs.Constructor.BuildOrder

/-!
# First entries

Where no object leads to itself, the merged graph has no cycle either.  When the depth-first search
of the graph comes to an object that is represented by another, that other and all that it leads to
have been visited to the end, so nothing below is new but represented objects.  So objects are
entered for the first time in construction order.
-/

namespace SceneCompiler

variable {n : Nat}

theorem eraseDups_append_of_subset {left right : List (Fin n)} (h : right ⊆ left) :
    (left ++ right).eraseDups = left.eraseDups := by
  have hnone : right.removeAll left = [] :=
    List.filter_eq_nil_iff.mpr fun i hi => by simp [h hi]
  simp [List.eraseDups_append, hnone]

theorem eraseDups_concat {past : List (Fin n)} {i : Fin n} (h : i ∉ past) :
    (past ++ [i]).eraseDups = past.eraseDups ++ [i] := by
  simp [List.eraseDups_append, List.cons_removeAll, List.eraseDups_cons, h]

def Graph.Acyclic (g : Graph n) : Prop :=
  ∀ i ∈ g.order, ¬Relation.TransGen (fun a b => b ∈ g.outReferences a) i i

namespace Graph

variable {g : Graph n}

theorem acyclic_of_lt {rank : Fin n → Nat}
    (h : ∀ i, ∀ j ∈ g.outReferences i, rank i < rank j) : g.Acyclic := by
  have hlt : ∀ {i j : Fin n}, Relation.TransGen (fun a b => b ∈ g.outReferences a) i j →
      rank i < rank j := by
    intro i j hpath
    induction hpath with
    | single hedge => exact h _ _ hedge
    | tail _ hedge ih => exact ih.trans (h _ _ hedge)
  intro i _ hcycle
  exact lt_irrefl _ (hlt hcycle)

theorem Acyclic.acc (hacyclic : g.Acyclic) (hg : g.Ordered) {i : Fin n} (hi : i ∈ g.order) :
    Acc (fun b a => b ∈ g.outReferences a) i := by
  let below : Fin n → Fin n → Prop := fun b a =>
    a ∈ g.order ∧ Relation.TransGen (fun a b => b ∈ g.outReferences a) a b
  have : IsTrans (Fin n) below := ⟨fun _ _ _ hab hbc => ⟨hbc.1, hbc.2.trans hab.2⟩⟩
  have : Std.Irrefl below := ⟨fun a ha => hacyclic a ha.1 ha.2⟩
  have hwf : WellFounded below := Finite.wellFounded_of_trans_of_irrefl below
  induction i using hwf.induction with
  | _ i ih =>
    refine ⟨i, fun b hb => ?_⟩
    exact ih b ⟨hi, .single hb⟩ (hg.closed i hi hb)

theorem Ordered.pairwise_index (hg : g.Ordered) :
    g.order.Pairwise fun i j => g.index i < g.index j := by
  rw [List.pairwise_iff_getElem]
  intro a b ha hb hab
  simpa [index, hg.nodup.idxOf_getElem] using hab

theorem mem_prefix_iff {seen : List (Fin n)} (h : seen <+: g.order) {i : Fin n} :
    i ∈ seen ↔ g.index i < seen.length := by
  obtain ⟨rest, hrest⟩ := h
  rw [index, ← hrest]
  constructor
  · intro hi
    rw [List.idxOf_append_of_mem hi]
    exact List.idxOf_lt_length_of_mem hi
  · intro hlt
    by_contra hi
    rw [List.idxOf_append_of_notMem hi] at hlt
    omega

end Graph

namespace Merge

variable {m : Merge n} {keep : Bool}

def Leads (m : Merge n) (r s : Fin n) : Prop :=
  s ∈ m.targets r

section Lawful

variable (hm : m.Lawful (m.graph.atoms keep))

include hm

theorem leads_of_mem {i j : Fin n} (hi : i ∈ m.graph.order) (hj : j ∈ m.graph.outReferences i) :
    m.Leads m.representative[i] m.representative[j] := by
  rw [Leads, hm.targets_eq hi]
  exact List.mem_map_of_mem hj

theorem leads_of_reaches {i j : Fin n} (hi : i ∈ m.graph.order)
    (h : Relation.ReflTransGen (fun a b => b ∈ m.graph.outReferences a) i j) :
    j ∈ m.graph.order ∧
      Relation.ReflTransGen m.Leads m.representative[i] m.representative[j] := by
  induction h with
  | refl => exact ⟨hi, .refl⟩
  | tail _ hedge ih =>
    exact ⟨hm.ordered.closed _ ih.1 hedge, ih.2.tail (leads_of_mem hm ih.1 hedge)⟩

/-- Merging makes no cycles: a way in the merged graph is one in the graph, from object to object of
the same groups. -/
theorem not_leads_self (hacyclic : m.graph.Acyclic) {i : Fin n} (hi : i ∈ m.graph.order) :
    ¬Relation.TransGen m.Leads m.representative[i] m.representative[i] := by
  have hacc : Acc (Function.swap m.Leads) m.representative[i] := by
    induction hacyclic.acc hm.ordered hi with
    | intro i _ ih =>
      refine ⟨_, fun s hs => ?_⟩
      change s ∈ m.targets m.representative[i] at hs
      rw [hm.targets_eq hi] at hs
      obtain ⟨k, hk, rfl⟩ := List.mem_map.mp hs
      exact ih k hk (hm.ordered.closed i hi hk)
  have hirrefl : ∀ {r : Fin n}, Acc (Relation.TransGen (Function.swap m.Leads)) r →
      ¬Relation.TransGen (Function.swap m.Leads) r r := by
    intro r hr
    induction hr with
    | intro r _ ih => exact fun hcycle => ih r hcycle hcycle
  exact fun hcycle => hirrefl hacc.transGen (Relation.transGen_swap.mpr hcycle)

theorem representative_mem_seen {seen : List (Fin n)} (h : seen <+: m.graph.order) {i : Fin n}
    (hi : i ∈ seen) : m.representative[i] ∈ seen := by
  rw [Graph.mem_prefix_iff h] at hi ⊢
  have hle := hm.index_le i (h.subset ((Graph.mem_prefix_iff h).mpr hi))
  omega

end Lawful

def heads (m : Merge n) (is : List (Fin n)) : List (Fin n) :=
  is.filter fun i => m.representative[i] == i

theorem mem_heads {is : List (Fin n)} {i : Fin n} :
    i ∈ m.heads is ↔ i ∈ is ∧ m.representative[i] = i := by
  simp [heads]

theorem heads_append (left right : List (Fin n)) :
    m.heads (left ++ right) = m.heads left ++ m.heads right :=
  List.filter_append ..

theorem heads_singleton_of_eq {i : Fin n} (h : m.representative[i] = i) : m.heads [i] = [i] :=
  List.filter_cons_of_pos (by simpa using h)

theorem heads_singleton_of_ne {i : Fin n} (h : m.representative[i] ≠ i) : m.heads [i] = [] :=
  List.filter_cons_of_neg (by simpa using h)

/-- Where a search stands: an object that has been seen has all that it refers to seen, or it leads to
everything that is pending. -/
def Pursues (m : Merge n) (pending seen : List (Fin n)) : Prop :=
  ∀ i ∈ seen, m.graph.outReferences i ⊆ seen ∨
    ∀ p ∈ pending, Relation.TransGen m.Leads m.representative[i] m.representative[p]

namespace Pursues

variable {i : Fin n} {rest seen between : List (Fin n)} (h : m.Pursues (i :: rest) seen)

include h

theorem skip : m.Pursues rest seen := by
  intro k hk
  rcases h k hk with hclosed | hleads
  · exact .inl hclosed
  · exact .inr fun p hp => hleads p (List.mem_cons_of_mem _ hp)

theorem leave (hbelow : Graph.Explores m.graph.outReferences (m.graph.outReferences i) (seen ++ [i])
    between) : m.Pursues rest between := by
  intro k hk
  by_cases hseen : k ∈ seen
  · rcases h.skip k hseen with hclosed | hleads
    · exact .inl fun j hj => hbelow.mem_of_seen (List.mem_append_left _ (hclosed hj))
    · exact .inr hleads
  · by_cases hki : k = i
    · rw [hki]
      exact .inl hbelow.pending_subset
    · exact .inl (hbelow.closed hk (by simp [hseen, hki]))

variable (hm : m.Lawful (m.graph.atoms keep)) (hi : i ∈ m.graph.order)

include hm hi

theorem enter : m.Pursues (m.graph.outReferences i) (seen ++ [i]) := by
  intro k hk
  rcases List.mem_append.mp hk with hk | hk
  · rcases h k hk with hclosed | hleads
    · exact .inl (List.subset_append_of_subset_left _ hclosed)
    · exact .inr fun p hp => (hleads i List.mem_cons_self).tail (leads_of_mem hm hi hp)
  · rw [List.mem_singleton.mp hk]
    exact .inr fun p hp => .single (leads_of_mem hm hi hp)

variable (hacyclic : m.graph.Acyclic) (hstart : seen <+: m.graph.order)
  (hseen : m.representative[i] ∈ seen)

include hacyclic hstart hseen

theorem mem_of_leads {s : Fin n} (hpath : Relation.ReflTransGen m.Leads m.representative[i] s) :
    s ∈ seen ∧ m.representative[s] = s := by
  induction hpath with
  | refl => exact ⟨hseen, hm.idem i hi⟩
  | @tail s t hpath hedge ih =>
    obtain ⟨hs, hself⟩ := ih
    obtain ⟨k, hk, rfl⟩ := List.mem_map.mp hedge
    rcases h s hs with hclosed | hleads
    · exact ⟨representative_mem_seen hm hstart (hclosed hk),
        hm.idem k (hm.ordered.closed s (hstart.subset hs) hk)⟩
    · have hback := hleads i List.mem_cons_self
      rw [hself] at hback
      exact absurd (Relation.TransGen.trans_right hpath hback) (not_leads_self hm hacyclic hi)

theorem heads_eq (hself : m.representative[i] ≠ i)
    (hbelow : Graph.Explores m.graph.outReferences (m.graph.outReferences i) (seen ++ [i]) between)
    (hbetween : between.Nodup) : m.heads between = m.heads seen := by
  obtain ⟨new, rfl⟩ := hbelow.isPrefix
  have hnone : m.heads new = [] := by
    rw [List.eq_nil_iff_forall_not_mem]
    intro k hk
    obtain ⟨hk, hkself⟩ := mem_heads.mp hk
    have hfresh : k ∉ seen ++ [i] := fun hmem => (List.nodup_append.mp hbetween).2.2 k hmem k hk rfl
    obtain ⟨p, hp, hpath⟩ := hbelow.reaches (List.mem_append_right _ hk) hfresh
    have hleads := (leads_of_reaches hm hi (.head hp hpath)).2
    rw [hkself] at hleads
    exact hfresh (List.mem_append_left _ (h.mem_of_leads hm hi hacyclic hstart hseen hleads).1)
  rw [heads_append, heads_append, hnone, heads_singleton_of_ne hself]
  simp

end Pursues

section Lawful

variable (hm : m.Lawful (m.graph.atoms keep)) (hacyclic : m.graph.Acyclic)

include hm hacyclic

theorem climbs_of_explores {pending seen after : List (Fin n)}
    (h : Graph.Explores m.graph.outReferences pending seen after) (hpending : pending ⊆ m.graph.order)
    (hafter : after <+: m.graph.order) (hpursues : m.Pursues pending seen) :
    m.Climbs (pending.map fun i => m.representative[i]) (m.heads seen) (m.heads after) := by
  induction h with
  | done seen => exact .done _
  | @skip i rest seen after hi hrest ih =>
    have hrep := representative_mem_seen hm (hrest.isPrefix.trans hafter) hi
    refine .skip (mem_heads.mpr ⟨hrep, hm.idem i (hpending List.mem_cons_self)⟩) ?_
    exact ih (List.cons_subset.mp hpending).2 hafter hpursues.skip
  | @visit i rest seen between after hi hbelow hrest ihBelow ihRest =>
    obtain ⟨hiorder, hpending⟩ := List.cons_subset.mp hpending
    have hbetween := hrest.isPrefix.trans hafter
    have hentered := hbelow.isPrefix.trans hbetween
    have hseen := (List.prefix_append seen [i]).trans hentered
    have hindex : m.graph.index i = seen.length := by
      have hlt := (Graph.mem_prefix_iff hentered).mp (List.mem_append_right _ List.mem_cons_self)
      have hle := (Graph.mem_prefix_iff hseen).not.mp hi
      simp only [List.length_append, List.length_singleton] at hlt
      omega
    have hrestClimbs := ihRest hpending hafter (hpursues.leave hbelow)
    by_cases hself : m.representative[i] = i
    · have hbelowClimbs := ihBelow (hm.ordered.closed i hiorder) hbetween
        (hpursues.enter hm hiorder)
      rw [List.map_cons, hself]
      rw [heads_append, heads_singleton_of_eq hself] at hbelowClimbs
      refine .visit (fun hmem => hi (mem_heads.mp hmem).1) (fun j hj hlt => ?_) hbelowClimbs
        hrestClimbs
      have hj := hm.targets_subset hiorder hj
      exact mem_heads.mpr ⟨(Graph.mem_prefix_iff hseen).mpr (hindex ▸ hlt),
        (mem_representatives.mp hj).2⟩
    · have hrep : m.representative[i] ∈ seen := by
        rw [Graph.mem_prefix_iff hseen, ← hindex]
        refine lt_of_le_of_ne (hm.index_le i hiorder) fun heq => hself ?_
        exact Graph.index_inj (hm.mem_order i hiorder) heq
      rw [hpursues.heads_eq hm hiorder hacyclic hseen hrep hself hbelow
        (hm.ordered.nodup.sublist hbetween.sublist)] at hrestClimbs
      exact .skip (mem_heads.mpr ⟨hrep, hm.idem i hiorder⟩) hrestClimbs

variable (hroot : m.graph.root ∈ m.representatives)
  (hexplores : Graph.Explores m.graph.outReferences [m.graph.root] [] m.graph.order)

include hroot hexplores

theorem climbs_root : m.Climbs (m.targets m.graph.root) [m.graph.root] m.representatives := by
  have hclimbs := climbs_of_explores hm hacyclic hexplores (by simpa using hm.ordered.root_mem)
    List.prefix_rfl fun i hi => absurd hi List.not_mem_nil
  rw [List.map_singleton, (mem_representatives.mp hroot).2] at hclimbs
  cases hclimbs with
  | skip hseen _ => exact absurd hseen List.not_mem_nil
  | visit _ _ hbelow hrest =>
    cases hrest
    exact hbelow

omit hacyclic hexplores hroot

theorem eraseDups_entered_follow (depth : Nat) {i : Fin n} (hi : i ∈ m.representatives)
    (hdepth : m.graph.order.length ≤ depth + 1 + m.graph.index i)
    {before js seen after past : List (Fin n)} (hjs : js ⊆ m.targets i)
    (h : m.Climbs js seen after) (hsettled : m.Settled i seen) (hbefore : before ⊆ seen)
    (hpast : past.eraseDups = seen) :
    (past ++ Mark.entered (m.follow (m.visit depth) i before js)).eraseDups = after := by
  induction h generalizing depth i before past with
  | done seen => simpa [follow, Mark.entered] using hpast
  | @skip k rest seen after hk _ ih =>
    have hmem : ∀ x, x ∈ past ↔ x ∈ seen := fun x => by rw [← hpast, List.mem_eraseDups]
    have hold : Mark.entered (m.step (m.visit depth) i before k) ⊆ past := fun x hx =>
      (hmem x).mpr (((step_seen depth hsettled hk hmem).2 x).mp (List.mem_append_right _ hx))
    rw [follow, Mark.entered_append, ← List.append_assoc]
    refine ih depth hi hdepth (List.cons_subset.mp hjs).2 hsettled ?_ ?_
    · simpa [hk] using hbefore
    · rw [eraseDups_append_of_subset hold, hpast]
  | @visit k rest seen between after hk hearlier hbelow _ ihBelow ihRest =>
    obtain ⟨hkmem, hjs⟩ := List.cons_subset.mp hjs
    have hkrep := hm.targets_subset (mem_representatives.mp hi).1 hkmem
    have hkorder := (mem_representatives.mp hkrep).1
    have hkindex : m.graph.index k < m.graph.order.length := List.idxOf_lt_length_of_mem hkorder
    have hlt := hsettled.index_lt_of_not_mem hkmem hkorder hk
    have hstep : m.step (m.visit depth) i before k = m.visit depth k := by
      have hnew : k ∉ before := fun hmem => hk (hbefore hmem)
      simp [step, visits, hlt, hnew]
    obtain ⟨d, rfl⟩ : ∃ d, depth = d + 1 := ⟨depth - 1, by omega⟩
    rw [follow, hstep, Mark.entered_append, entered_visit_succ, ← List.append_assoc,
      List.append_cons past k]
    refine ihRest (d + 1) hi hdepth hjs (hsettled.leave hlt hearlier hbelow.explores) ?_ ?_
    · intro x hx
      apply hbelow.explores.mem_of_seen
      rcases List.mem_append.mp hx with hx | hx
      · exact List.mem_append_left _ (hbefore hx)
      · exact List.mem_append_right _ hx
    · refine ihBelow d hkrep (by omega) (List.Subset.refl _) (hsettled.enter hlt hearlier)
        (List.nil_subset _) ?_
      rw [eraseDups_concat, hpast]
      rwa [← List.mem_eraseDups, hpast]

include hacyclic hroot hexplores

/-- Visiting the root of a graph without cycles enters the representatives for the first time in
construction order. -/
theorem eraseDups_entered_visit {depth : Nat} (hdepth : m.graph.order.length ≤ depth) :
    (Mark.entered (m.visit depth m.graph.root)).eraseDups = m.representatives := by
  have hindex := hm.ordered.index_root
  have hpos : 0 < m.graph.order.length := List.length_pos_of_mem hm.ordered.root_mem
  obtain ⟨d, rfl⟩ : ∃ d, depth = d + 1 := ⟨depth - 1, by omega⟩
  rw [entered_visit_succ]
  have hpast : [m.graph.root].eraseDups = [m.graph.root] := by simp [List.eraseDups_cons]
  exact eraseDups_entered_follow hm d hroot (by omega) (List.Subset.refl _)
    (climbs_root hm hacyclic hroot hexplores) (settled_root hm) (List.nil_subset _) hpast

theorem index_lt_of_first {depth : Nat} (hdepth : m.graph.order.length ≤ depth) {i j : Fin n}
    {left right : List (Mark n)} (hsplit : m.visit depth m.graph.root = left ++ .enter j :: right)
    (hnew : .enter j ∉ left) (hi : .enter i ∈ left) : m.graph.index i < m.graph.index j := by
  have hentered := eraseDups_entered_visit hm hacyclic hroot hexplores hdepth
  have hpairwise : m.representatives.Pairwise fun i j => m.graph.index i < m.graph.index j :=
    hm.ordered.pairwise_index.filter _
  rw [← Mark.mem_entered] at hi hnew
  rw [hsplit, Mark.entered_append, Mark.entered_cons_enter, List.eraseDups_append,
    List.cons_removeAll, if_pos (by simpa using hnew), List.eraseDups_cons] at hentered
  rw [← hentered, List.pairwise_append] at hpairwise
  exact hpairwise.2.2 i (List.mem_eraseDups.mpr hi) j List.mem_cons_self

end Lawful

end Merge

end SceneCompiler
