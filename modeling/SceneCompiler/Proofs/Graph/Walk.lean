import Mathlib.Algebra.BigOperators.Fin
import Mathlib.Logic.Relation
import SceneCompiler.Graph

/-!
# Depth-first walks

The walk over an explicit stack makes the same first visits, in the same order, as the recursive
depth-first search.  The order of a graph is therefore free of repetitions, closed under references,
and every object in it but the root is referred to by an earlier one.
-/

namespace SceneCompiler.Graph

variable {n : Nat} {references : Fin n → List (Fin n)}

/--
The recursive search: `pending` is visited from left to right, each unseen object followed at once
by what it refers to.  `after` is `seen` with the first visits added.
-/
inductive Explores (references : Fin n → List (Fin n)) :
    (pending seen after : List (Fin n)) → Prop
  | done (seen : List (Fin n)) : Explores references [] seen seen
  | skip {i : Fin n} {rest seen after : List (Fin n)} :
      i ∈ seen → Explores references rest seen after →
      Explores references (i :: rest) seen after
  | visit {i : Fin n} {rest seen between after : List (Fin n)} :
      i ∉ seen → Explores references (references i) (seen ++ [i]) between →
      Explores references rest between after →
      Explores references (i :: rest) seen after

namespace Explores

theorem split {left right seen after : List (Fin n)}
    (h : Explores references (left ++ right) seen after) :
    ∃ between, Explores references left seen between ∧
      Explores references right between after := by
  induction left generalizing seen with
  | nil => exact ⟨seen, .done seen, h⟩
  | cons i left ih =>
    cases h with
    | skip hseen hrest =>
      obtain ⟨between, hleft, hright⟩ := ih hrest
      exact ⟨between, .skip hseen hleft, hright⟩
    | visit hseen hbelow hrest =>
      obtain ⟨between, hleft, hright⟩ := ih hrest
      exact ⟨between, .visit hseen hbelow hleft, hright⟩

theorem isPrefix {pending seen after : List (Fin n)}
    (h : Explores references pending seen after) : seen <+: after := by
  induction h with
  | done seen => exact List.prefix_rfl
  | skip _ _ ih => exact ih
  | visit _ _ _ ihBelow ihRest =>
    exact ((List.prefix_append _ _).trans ihBelow).trans ihRest

theorem unique {pending seen after after' : List (Fin n)}
    (h : Explores references pending seen after) (h' : Explores references pending seen after') :
    after = after' := by
  induction h generalizing after' with
  | done seen =>
    cases h'
    rfl
  | skip hseen _ ih =>
    cases h' with
    | skip _ hrest => exact ih hrest
    | visit hnew _ _ => exact absurd hseen hnew
  | visit hnew _ _ ihBelow ihRest =>
    cases h' with
    | skip hseen _ => exact absurd hseen hnew
    | visit _ hbelow hrest =>
      rw [← ihBelow hbelow] at hrest
      exact ihRest hrest

theorem mem_of_seen {pending seen after : List (Fin n)}
    (h : Explores references pending seen after) {i : Fin n} (hi : i ∈ seen) : i ∈ after :=
  h.isPrefix.subset hi

theorem pending_subset {pending seen after : List (Fin n)}
    (h : Explores references pending seen after) : pending ⊆ after := by
  induction h with
  | done seen => exact List.nil_subset _
  | skip hseen hrest ih =>
    exact List.cons_subset.mpr ⟨hrest.mem_of_seen hseen, ih⟩
  | visit _ hbelow hrest _ ihRest =>
    refine List.cons_subset.mpr ⟨hrest.mem_of_seen (hbelow.mem_of_seen ?_), ihRest⟩
    simp

theorem nodup {pending seen after : List (Fin n)}
    (h : Explores references pending seen after) (hseen : seen.Nodup) : after.Nodup := by
  induction h with
  | done seen => exact hseen
  | skip _ _ ih => exact ih hseen
  | visit hnew _ _ ihBelow ihRest =>
    have hconcat := hseen.concat hnew
    rw [List.concat_eq_append] at hconcat
    exact ihRest (ihBelow hconcat)

theorem closed {pending seen after : List (Fin n)}
    (h : Explores references pending seen after) {i : Fin n} (hi : i ∈ after)
    (hnew : i ∉ seen) : references i ⊆ after := by
  induction h with
  | done seen => exact absurd hi hnew
  | skip _ _ ih => exact ih hi hnew
  | @visit k rest seen between after _ hbelow hrest ihBelow ihRest =>
    by_cases hbetween : i ∈ between
    · have hsub : references i ⊆ between := by
        by_cases hk : i = k
        · subst hk
          exact hbelow.pending_subset
        · exact ihBelow hbetween (by simp [hnew, hk])
      exact fun j hj => hrest.mem_of_seen (hsub hj)
    · exact ihRest hi hbetween

theorem idxOf_eq {pending seen after : List (Fin n)}
    (h : Explores references pending seen after) {i : Fin n} (hi : i ∈ seen) :
    after.idxOf i = seen.idxOf i := by
  obtain ⟨new, rfl⟩ := h.isPrefix
  exact List.idxOf_append_of_mem hi

theorem length_le_idxOf {pending seen after : List (Fin n)}
    (h : Explores references pending seen after) {i : Fin n} (hi : i ∉ seen) :
    seen.length ≤ after.idxOf i := by
  obtain ⟨new, rfl⟩ := h.isPrefix
  rw [List.idxOf_append_of_notMem hi]
  omega

theorem parent {pending seen after : List (Fin n)}
    (h : Explores references pending seen after) {i : Fin n} (hi : i ∈ after)
    (hnew : i ∉ seen) :
    i ∈ pending ∨
      ∃ p ∈ after, p ∉ seen ∧ i ∈ references p ∧ after.idxOf p < after.idxOf i := by
  induction h with
  | done seen => exact absurd hi hnew
  | skip _ _ ih =>
    rcases ih hi hnew with hrest | hparent
    · exact .inl (List.mem_cons_of_mem _ hrest)
    · exact .inr hparent
  | @visit k rest seen between after hk hbelow hrest ihBelow ihRest =>
    have hkBetween : k ∈ between := hbelow.mem_of_seen (by simp)
    by_cases hbetween : i ∈ between
    · by_cases hik : i = k
      · exact .inl (by simp [hik])
      have hnew' : i ∉ seen ++ [k] := by simp [hnew, hik]
      rcases ihBelow hbetween hnew' with hchild | ⟨p, hp, hpnew, hpi, hlt⟩
      · refine .inr ⟨k, hrest.mem_of_seen hkBetween, hk, hchild, ?_⟩
        have hidx : between.idxOf k = seen.length := by
          rw [hbelow.idxOf_eq (by simp), List.idxOf_append_of_notMem hk]
          simp
        have hle := hbelow.length_le_idxOf hnew'
        rw [hrest.idxOf_eq hkBetween, hrest.idxOf_eq hbetween, hidx]
        simp only [List.length_append, List.length_cons, List.length_nil] at hle
        omega
      · refine .inr ⟨p, hrest.mem_of_seen hp, ?_, hpi, ?_⟩
        · intro hps
          exact hpnew (by simp [hps])
        · rw [hrest.idxOf_eq hp, hrest.idxOf_eq hbetween]
          exact hlt
    · rcases ihRest hi hbetween with hmem | ⟨p, hp, hpnew, hpi, hlt⟩
      · exact .inl (List.mem_cons_of_mem _ hmem)
      · refine .inr ⟨p, hp, ?_, hpi, hlt⟩
        intro hps
        exact hpnew (hbelow.mem_of_seen (by simp [hps]))

theorem of_filter {pending left seen after : List (Fin n)} (hleft : left ⊆ seen)
    (h : Explores references (pending.filter fun r => !left.contains r) seen after) :
    Explores references pending seen after := by
  induction pending generalizing seen with
  | nil => exact h
  | cons i pending ih =>
    by_cases hi : i ∈ left
    · rw [List.filter_cons_of_neg (by simpa using hi)] at h
      exact .skip (hleft hi) (ih hleft h)
    · rw [List.filter_cons_of_pos (by simpa using hi)] at h
      cases h with
      | skip hseen hrest => exact .skip hseen (ih hleft hrest)
      | visit hseen hbelow hrest =>
        refine .visit hseen hbelow (ih (fun k hk => ?_) hrest)
        exact hbelow.mem_of_seen (List.mem_append_left _ (hleft hk))

theorem reaches {pending seen after : List (Fin n)}
    (h : Explores references pending seen after) {i : Fin n} (hi : i ∈ after) (hnew : i ∉ seen) :
    ∃ p ∈ pending, Relation.ReflTransGen (fun a b => b ∈ references a) p i := by
  induction h with
  | done seen => exact absurd hi hnew
  | skip _ _ ih =>
    obtain ⟨p, hp, hpath⟩ := ih hi hnew
    exact ⟨p, List.mem_cons_of_mem _ hp, hpath⟩
  | @visit k rest seen between after _ hbelow _ ihBelow ihRest =>
    by_cases hbetween : i ∈ between
    · by_cases hik : i = k
      · exact ⟨k, List.mem_cons_self, hik ▸ .refl⟩
      · obtain ⟨p, hp, hpath⟩ := ihBelow hbetween (by simp [hnew, hik])
        exact ⟨k, List.mem_cons_self, .head hp hpath⟩
    · obtain ⟨p, hp, hpath⟩ := ihRest hi hbetween
      exact ⟨p, List.mem_cons_of_mem _ hp, hpath⟩

end Explores

def unseen (references : Fin n → List (Fin n)) (seen : List (Fin n)) : Nat :=
  ∑ i, if seen.contains i then 0 else (references i).length

theorem unseen_concat {seen : List (Fin n)} {i : Fin n} (hi : i ∉ seen) :
    (references i).length + unseen references (seen ++ [i]) = unseen references seen := by
  unfold unseen
  rw [← Finset.add_sum_erase Finset.univ _ (Finset.mem_univ i),
    ← Finset.add_sum_erase Finset.univ (fun k => if seen.contains k then 0 else _)
      (Finset.mem_univ i)]
  have hrest : ∀ k ∈ Finset.univ.erase i,
      (if (seen ++ [i]).contains k then 0 else (references k).length) =
        if seen.contains k then 0 else (references k).length := by
    intro k hk
    simp [Finset.ne_of_mem_erase hk]
  rw [Finset.sum_congr rfl hrest]
  simp [hi]

/-- With fuel for each pending object and each unseen reference, a walk is a recursive search. -/
theorem walk_explores (fuel : Nat) (stack seen : List (Fin n))
    (hfuel : stack.length + unseen references seen ≤ fuel) :
    Explores references stack seen (walk references fuel stack seen) := by
  induction fuel generalizing stack seen with
  | zero =>
    have hstack : stack = [] := List.length_eq_zero_iff.mp (by omega)
    subst hstack
    exact .done seen
  | succ fuel ih =>
    cases stack with
    | nil => exact .done seen
    | cons i rest =>
      simp only [List.length_cons] at hfuel
      rw [walk]
      by_cases hi : i ∈ seen
      · rw [if_pos (by simpa using hi)]
        exact .skip hi (ih rest seen (by omega))
      · rw [if_neg (by simpa using hi)]
        have hstep : (references i).length + unseen references (seen ++ [i]) =
            unseen references seen := unseen_concat hi
        have hshorter := List.length_filter_le (fun r => !(seen ++ [i]).contains r) (references i)
        have hwalk := ih (((references i).filter fun r => !(seen ++ [i]).contains r) ++ rest)
          (seen ++ [i]) (by
            rw [List.length_append]
            omega)
        obtain ⟨between, hbelow, hrest⟩ := hwalk.split
        exact .visit hi (.of_filter (List.Subset.refl _) hbelow) hrest

theorem depthFirst_explores (references : Fin n → List (Fin n)) (root : Fin n) :
    Explores references [root] [] (depthFirst references root) := by
  apply walk_explores
  simp [unseen, steps, List.length_flatMap, Fin.sum_univ_def, Nat.add_comm]

/-- What the order of a graph has to do with its references. -/
structure Ordered (g : Graph n) : Prop where
  nodup : g.order.Nodup
  root_mem : g.root ∈ g.order
  index_root : g.index g.root = 0
  closed : ∀ i ∈ g.order, g.outReferences i ⊆ g.order
  parent : ∀ i ∈ g.order, i ≠ g.root →
    ∃ p ∈ g.order, i ∈ g.outReferences p ∧ g.index p < g.index i

theorem ofRoot_ordered (heap : Heap n) (root : Fin n) : (ofRoot heap root).Ordered := by
  have h := depthFirst_explores (fun i => heap[i].references) root
  have hroot : [root] <+: (ofRoot heap root).order := by
    change [root] <+: depthFirst (fun i => heap[i].references) root
    cases h with
    | skip hseen _ => exact absurd hseen List.not_mem_nil
    | visit _ hbelow hrest => exact hbelow.isPrefix.trans hrest.isPrefix
  refine ⟨h.nodup List.nodup_nil, hroot.subset (List.mem_singleton_self root), ?_, ?_, ?_⟩
  · obtain ⟨rest, hrest⟩ := hroot
    change (ofRoot heap root).order.idxOf root = 0
    rw [← hrest]
    simp
  · intro i hi
    exact h.closed hi List.not_mem_nil
  · intro i hi hne
    rcases h.parent hi List.not_mem_nil with hpending | ⟨p, hp, _, hpi, hlt⟩
    · exact absurd (List.mem_singleton.mp hpending) hne
    · exact ⟨p, hp, hpi, hlt⟩

theorem Ordered.length_le {g : Graph n} (hg : g.Ordered) : g.order.length ≤ n := by
  simpa using hg.nodup.length_le_card

theorem index_inj {g : Graph n} {i j : Fin n} (hi : i ∈ g.order)
    (h : g.index i = g.index j) : i = j :=
  (List.idxOf_inj hi).mp h

end SceneCompiler.Graph
