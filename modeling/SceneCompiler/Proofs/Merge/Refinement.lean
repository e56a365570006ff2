import SceneCompiler.Proofs.Merge.Completeness

/-!
# Groups by more and by fewer atoms

Two tables of groups are filled in step, one by atoms that tell more objects apart than those of the
other.  Which objects are grouped, and which labels are left unfinished, does not depend on the atoms.
So at every moment a group of the first table lies within a group of the second.
-/

namespace SceneCompiler

variable {n : Nat}

/-- Objects that `atoms` does not tell apart are not told apart by `atoms'`, and the same ones stand
alone. -/
structure Coarser (atoms atoms' : Fin n → Option (List Atom)) : Prop where
  alone : ∀ i, atoms i = none ↔ atoms' i = none
  same : ∀ i j fields, atoms i = some fields → atoms j = some fields → atoms' i = atoms' j

section Comments

variable {ρ : Type}

theorem Object.atoms?_eq_none_iff (o : Object ρ) (keep keep' : Bool) :
    o.atoms? keep = none ↔ o.atoms? keep' = none := by
  cases o with
  | composition base variant =>
    simp only [atoms?]
    split
    · exact Iff.rfl
    · rw [Option.map_eq_none_iff, Option.map_eq_none_iff]
  | path description source | canvas description geometry => simp [atoms?]

theorem Object.Alike.ignoring {a b : Object ρ} (h : a.Alike true b) : a.Alike false b := by
  cases h with
  | composition hanimators hanimators' hvalues hvalues' _ hvariant =>
    exact .composition hanimators hanimators' hvalues hvalues' (fun h => by cases h) hvariant
  | path description description' source source' => exact .path _ _ _ _
  | canvas description description' hgeometry => exact .canvas _ _ hgeometry

theorem Graph.atoms_coarser (g : Graph n) : Coarser (g.atoms true) (g.atoms false) := by
  refine ⟨fun i => (g.object i).atoms?_eq_none_iff true false, fun i j fields hi hj => ?_⟩
  obtain ⟨fields', hi', hj'⟩ :=
    Object.atoms?_eq_of_alike (Object.alike_of_atoms? hi hj).ignoring
  exact hi'.trans hj'.symm

end Comments

namespace Grouping

def Meets (s t : Grouping n) (k k' : Nat) : Prop :=
  ∃ i, s.groups.lookup i = some k ∧ t.groups.lookup i = some k'

inductive LabelsMeet (s t : Grouping n) : Label n → Label n → Prop
  | unfinished (i : Fin n) : LabelsMeet s t (.unfinished i) (.unfinished i)
  | group {k k' : Nat} : s.Meets t k k' → LabelsMeet s t (.group k) (.group k')

section

variable {s t s' t' : Grouping n} (hs : s.Extends s') (ht : t.Extends t')

include hs ht

theorem Meets.mono {k k' : Nat} (h : s.Meets t k k') : s'.Meets t' k k' := by
  obtain ⟨i, hi, hi'⟩ := h
  exact ⟨i, hs.groups i k hi, ht.groups i k' hi'⟩

theorem LabelsMeet.mono {l l' : Label n} (h : LabelsMeet s t l l') : LabelsMeet s' t' l l' := by
  cases h with
  | unfinished i => exact .unfinished i
  | group h => exact .group (h.mono hs ht)

end

theorem LabelsMeet.rightUnique {s t : Grouping n} (h : Relator.RightUnique (s.Meets t)) :
    Relator.RightUnique (LabelsMeet s t) := by
  intro l l₁ l₂ h₁ h₂
  cases h₁ with
  | unfinished i =>
    cases h₂
    rfl
  | group hk =>
    cases h₂ with
    | group hk' => rw [h hk hk']

variable {atoms atoms' : Fin n → Option (List Atom)}

variable (atoms atoms') in
inductive KeysMeet (s t : Grouping n) : Key n → Key n → Prop
  | alone (i : Fin n) : KeysMeet s t (.alone i) (.alone i)
  | shared {i : Fin n} {fields fields' : List Atom} {labels labels' : List (Label n)} :
      atoms i = some fields → atoms' i = some fields' →
      List.Forall₂ (LabelsMeet s t) labels labels' →
      KeysMeet s t (.shared fields labels) (.shared fields' labels')

theorem KeysMeet.mono {s t s' t' : Grouping n} (hs : s.Extends s') (ht : t.Extends t')
    {key key' : Key n} (h : KeysMeet atoms atoms' s t key key') :
    KeysMeet atoms atoms' s' t' key key' := by
  cases h with
  | alone i => exact .alone i
  | shared hi hi' hlabels => exact .shared hi hi' (hlabels.imp fun _ _ hl => hl.mono hs ht)

theorem KeysMeet.rightUnique (hatoms : Coarser atoms atoms') {s t : Grouping n}
    (h : Relator.RightUnique (s.Meets t)) :
    Relator.RightUnique (KeysMeet atoms atoms' s t) := by
  intro key key₁ key₂ h₁ h₂
  cases h₁ with
  | alone i =>
    cases h₂
    rfl
  | shared hi hi' hlabels =>
    cases h₂ with
    | shared hj hj' hlabels' =>
      have hfields := hatoms.same _ _ _ hi hj
      rw [hi', hj'] at hfields
      cases hfields
      rw [(LabelsMeet.rightUnique h).forall₂ hlabels hlabels']

variable (atoms atoms') in
/-- Two tables filled in step: every group of the first lies within one of the second. -/
structure Refines (s t : Grouping n) : Prop where
  grouped : ∀ i, s.groups.lookup i = none ↔ t.groups.lookup i = none
  within : Relator.RightUnique (s.Meets t)
  keys : ∀ k k', s.Meets t k k' → ∃ key key', s.keys[k]? = some key ∧ t.keys[k']? = some key' ∧
    KeysMeet atoms atoms' s t key key'
  inhabited : ∀ k key, s.keys[k]? = some key → ∃ k', s.Meets t k k'
  nodup : t.keys.Nodup

theorem refines_empty : Refines atoms atoms' ({} : Grouping n) {} := by
  refine ⟨fun i => Iff.rfl, fun k k₁ k₂ h _ => ?_, fun k k' h => ?_, fun k key h => ?_,
    List.nodup_nil⟩
  · obtain ⟨i, hi, _⟩ := h
    simp at hi
  · obtain ⟨i, hi, _⟩ := h
    simp at hi
  · simp at h

section Insert

variable {s t : Grouping n} {i : Fin n} {key key' : Key n}

theorem meets_append {s₁ t₁ : Grouping n} {k k' a a' : Nat} (hi : s.groups.lookup i = none)
    (hi' : t.groups.lookup i = none) (hs : s₁.groups = s.groups ++ [(i, k)])
    (ht : t₁.groups = t.groups ++ [(i, k')]) :
    s₁.Meets t₁ a a' ↔ s.Meets t a a' ∨ a = k ∧ a' = k' := by
  unfold Meets
  simp only [hs, ht, lookup_append_new hi, lookup_append_new hi']
  constructor
  · rintro ⟨j, hj, hj'⟩
    by_cases hji : j = i
    · rw [if_pos hji] at hj hj'
      exact .inr ⟨(Option.some.inj hj).symm, (Option.some.inj hj').symm⟩
    · rw [if_neg hji] at hj hj'
      exact .inl ⟨j, hj, hj'⟩
  · rintro (⟨j, hj, hj'⟩ | ⟨rfl, rfl⟩)
    · have hji : j ≠ i := fun h => by
        rw [h, hi] at hj
        cases hj
      exact ⟨j, by rw [if_neg hji, hj], by rw [if_neg hji, hj']⟩
    · exact ⟨i, if_pos rfl, if_pos rfl⟩

theorem Refines.insert (h : Refines atoms atoms' s t) (hatoms : Coarser atoms atoms')
    (hi : s.groups.lookup i = none) (hkey : KeysMeet atoms atoms' s t key key') :
    Refines atoms atoms' (s.insert i key).2 (t.insert i key').2 ∧
      LabelsMeet (s.insert i key).2 (t.insert i key').2 (s.insert i key).1 (t.insert i key').1 := by
  have hi' := (h.grouped i).mp hi
  obtain ⟨hs, k, hlabel, hgroups, hget⟩ := insert_spec s i key
  obtain ⟨ht, k', hlabel', hgroups', hget'⟩ := insert_spec t i key'
  have hnodup : (t.insert i key').2.keys.Nodup := nodup_keys_insert h.nodup i key'
  have hmeets : ∀ a a', (s.insert i key).2.Meets (t.insert i key').2 a a' ↔
      s.Meets t a a' ∨ a = k ∧ a' = k' := fun a a' => meets_append hi hi' hgroups hgroups'
  -- a group that had the key before met the group of the other key
  have hmet : ∀ a', (s.insert i key).2.Meets (t.insert i key').2 k a' → a' = k' := by
    intro a' ha
    rcases (hmeets k a').mp ha with ha | ⟨_, ha⟩
    · obtain ⟨old, old', hold, hold', hmeet⟩ := h.keys k a' ha
      have hsame : old = key := Option.some.inj ((hs.keys k old hold).symm.trans hget)
      rw [hsame] at hmeet
      rw [KeysMeet.rightUnique hatoms h.within hmeet hkey] at hold'
      have hat := ht.keys a' key' hold'
      exact (List.getElem?_inj (List.getElem?_eq_some_iff.mp hat).1 hnodup).mp (hat.trans hget'.symm)
    · exact ha
  refine ⟨⟨fun j => ?_, fun a a₁ a₂ h₁ h₂ => ?_, fun a a' ha => ?_, fun a old hold => ?_, hnodup⟩, ?_⟩
  · rw [hgroups, hgroups', lookup_append_new hi, lookup_append_new hi']
    split
    · simp
    · exact h.grouped j
  · by_cases hak : a = k
    · rw [hak] at h₁ h₂
      exact (hmet a₁ h₁).trans (hmet a₂ h₂).symm
    · simp only [hmeets, hak, false_and, or_false] at h₁ h₂
      exact h.within h₁ h₂
  · rcases (hmeets a a').mp ha with ha | ⟨rfl, rfl⟩
    · obtain ⟨old, old', hold, hold', hmeet⟩ := h.keys a a' ha
      exact ⟨old, old', hs.keys a old hold, ht.keys a' old' hold', hmeet.mono hs ht⟩
    · exact ⟨key, key', hget, hget', hkey.mono hs ht⟩
  · rcases getElem?_keys_insert hold with hbefore | hnew
    · obtain ⟨a', ha⟩ := h.inhabited a old hbefore
      exact ⟨a', (hmeets a a').mpr (.inl ha)⟩
    · rw [hlabel] at hnew
      cases hnew
      exact ⟨k', (hmeets k k').mpr (.inr ⟨rfl, rfl⟩)⟩
  · rw [hlabel, hlabel']
    exact .group ((hmeets k k').mpr (.inr ⟨rfl, rfl⟩))

end Insert

section Labels

variable {heap : Heap n}

variable (atoms atoms' heap) in
def FoundInStep (s t : Grouping n) (result result' : Label n × Grouping n) : Prop :=
  Sound heap atoms s → Sound heap atoms' t → Refines atoms atoms' s t →
    Refines atoms atoms' result.2 result'.2 ∧ LabelsMeet result.2 result'.2 result.1 result'.1

theorem labels_refine {find find' : Grouping n → Fin n → Label n × Grouping n}
    {active : List (Fin n)}
    (hfind : ∀ s i, Sound heap atoms s → Step heap atoms active s (find s i) i)
    (hfind' : ∀ t i, Sound heap atoms' t → Step heap atoms' active t (find' t i) i)
    (hstep : ∀ s t i, FoundInStep atoms atoms' heap s t (find s i) (find' t i))
    (is : List (Fin n)) {s t : Grouping n} (hs : Sound heap atoms s) (ht : Sound heap atoms' t)
    (h : Refines atoms atoms' s t) :
    Refines atoms atoms' (labels find s is).2 (labels find' t is).2 ∧
      List.Forall₂ (LabelsMeet (labels find s is).2 (labels find' t is).2)
        (labels find s is).1 (labels find' t is).1 := by
  induction is generalizing s t with
  | nil => exact ⟨h, .nil⟩
  | cons i rest ih =>
    have hfirst := hfind s i hs
    have hfirst' := hfind' t i ht
    obtain ⟨hrefines, hlabel⟩ := hstep s t i hs ht h
    obtain ⟨hrest, hlabels⟩ := ih hfirst.sound hfirst'.sound hrefines
    obtain ⟨_, hextends, _⟩ := labels_spec heap atoms hfind _ hfirst.sound rest
    obtain ⟨_, hextends', _⟩ := labels_spec heap atoms' hfind' _ hfirst'.sound rest
    exact ⟨hrest, .cons (hlabel.mono hextends hextends') hlabels⟩

theorem label_refines (hatoms : Coarser atoms atoms') (fuel : Nat) (active : List (Fin n))
    (s t : Grouping n) (i : Fin n) :
    FoundInStep atoms atoms' heap s t (label heap atoms fuel active s i)
      (label heap atoms' fuel active t i) := by
  intro hs ht h
  induction fuel generalizing active s t i with
  | zero => exact ⟨h, .unfinished i⟩
  | succ fuel ih =>
    rw [label, label]
    cases hlook : s.groups.lookup i with
    | some k =>
      have hsome : t.groups.lookup i ≠ none := fun hnone => by
        rw [(h.grouped i).mpr hnone] at hlook
        cases hlook
      obtain ⟨k', hlook'⟩ := Option.ne_none_iff_exists'.mp hsome
      rw [hlook']
      exact ⟨h, .group ⟨i, hlook, hlook'⟩⟩
    | none =>
      rw [(h.grouped i).mp hlook]
      by_cases hactive : i ∈ active
      · rw [if_pos (by simpa using hactive), if_pos (by simpa using hactive)]
        exact ⟨h, .unfinished i⟩
      · rw [if_neg (by simpa using hactive), if_neg (by simpa using hactive)]
        cases hfields : atoms i with
        | none =>
          rw [(hatoms.alone i).mp hfields]
          exact h.insert hatoms hlook (.alone i)
        | some fields =>
          have hsome : atoms' i ≠ none := fun hnone => by
            rw [(hatoms.alone i).mpr hnone] at hfields
            cases hfields
          obtain ⟨fields', hfields'⟩ := Option.ne_none_iff_exists'.mp hsome
          rw [hfields']
          -- the references of `i` are labelled while `i` itself is left alone
          have hfind := label_spec heap atoms fuel (i :: active)
          have hfind' := label_spec heap atoms' fuel (i :: active)
          obtain ⟨hrefines, hlabels⟩ := labels_refine hfind hfind'
            (fun s t j => ih (i :: active) s t j) heap[i].references hs ht h
          obtain ⟨_, _, _, hleft⟩ := labels_spec heap atoms hfind s hs heap[i].references
          exact hrefines.insert hatoms ((hleft i List.mem_cons_self).trans hlook)
            (.shared hfields hfields' hlabels)

theorem ofGraph_refines (g : Graph n) (hatoms : Coarser atoms atoms') :
    Refines atoms atoms' (ofGraph g atoms) (ofGraph g atoms') := by
  have hfold : ∀ (is : List (Fin n)) (s t : Grouping n), Sound g.heap atoms s →
      Sound g.heap atoms' t → Refines atoms atoms' s t →
      Refines atoms atoms' (is.foldl (fun s i => (label g.heap atoms (n + 1) [] s i).2) s)
        (is.foldl (fun s i => (label g.heap atoms' (n + 1) [] s i).2) t) := by
    intro is
    induction is with
    | nil => exact fun s t _ _ h => h
    | cons i rest ih =>
      intro s t hs ht h
      exact ih _ _ (label_spec g.heap atoms (n + 1) [] s i hs).sound
        (label_spec g.heap atoms' (n + 1) [] t i ht).sound
        (label_refines hatoms (n + 1) [] s t i hs ht h).1
  exact hfold g.order {} {} (sound_empty g.heap atoms) (sound_empty g.heap atoms') refines_empty

end Labels

end Grouping

/-- Keeping comments only splits groups: objects of a graph that have one representative when comments
are kept have one when comments are ignored. -/
theorem same_representative_ignoring (g : Graph n) {i j : Fin n} (hi : i ∈ g.order)
    (hj : j ∈ g.order)
    (h : (Merge.ofGraph g (g.atoms true)).representative[i] =
      (Merge.ofGraph g (g.atoms true)).representative[j]) :
    (Merge.ofGraph g (g.atoms false)).representative[i] =
      (Merge.ofGraph g (g.atoms false)).representative[j] := by
  have hrefines := Grouping.ofGraph_refines g g.atoms_coarser
  rw [Merge.representative_eq_iff g _ hi hj] at h ⊢
  obtain ⟨k, hk⟩ := Grouping.ofGraph_grouped (g.atoms true) g hi
  obtain ⟨a, ha⟩ := Grouping.ofGraph_grouped (g.atoms false) g hi
  obtain ⟨b, hb⟩ := Grouping.ofGraph_grouped (g.atoms false) g hj
  have hab : a = b := hrefines.within ⟨i, hk, ha⟩ ⟨j, h.symm.trans hk, hb⟩
  rw [Merge.groupOf, Merge.groupOf, ha, hb, hab]

/-- Three animations refer to the start of a chain that leads back to the first of them; the third has a
comment of its own. -/
def commentedCycleHeap : Heap 7 :=
  #v[.composition
      { onObject := [.plain "Opacity" 1, .plain "Scale" 2, .plain "Offset" 6] }
      (.containerVisual {}),
    .composition { description := { comment := some "fade" } }
      (.expressionAnimation { references := [("next", 3)] } "a"),
    .composition { description := { comment := some "fade" } }
      (.expressionAnimation { references := [("next", 3)] } "a"),
    .composition {} (.expressionAnimation { references := [("next", 4)] } "b"),
    .composition {} (.expressionAnimation { references := [("next", 5)] } "c"),
    .composition {} (.expressionAnimation { references := [("next", 1)] } "d"),
    .composition { description := { comment := some "other" } }
      (.expressionAnimation { references := [("next", 3)] } "a")]

theorem same_representative_commentedCycle :
    (Merge.ofGraph (Graph.ofRoot commentedCycleHeap 0)
        ((Graph.ofRoot commentedCycleHeap 0).atoms true)).representative =
      #v[0, 1, 1, 3, 4, 5, 6] ∧
      (Merge.ofGraph (Graph.ofRoot commentedCycleHeap 0)
          ((Graph.ofRoot commentedCycleHeap 0).atoms false)).representative[(1 : Fin 7)] =
        (Merge.ofGraph (Graph.ofRoot commentedCycleHeap 0)
          ((Graph.ofRoot commentedCycleHeap 0).atoms false)).representative[(2 : Fin 7)] ∧
      (Merge.ofGraph (Graph.ofRoot commentedCycleHeap 0)
          ((Graph.ofRoot commentedCycleHeap 0).atoms false)).representative[(6 : Fin 7)] = 1 := by
  refine ⟨by decide +kernel, ?_, by decide +kernel⟩
  exact same_representative_ignoring _ (by decide +kernel) (by decide +kernel) (by decide +kernel)

end SceneCompiler
