import Mathlib.Data.List.Forall2
import SceneCompiler.Merge

/-!
# Groups of interchangeable objects

Labels are computed by a recursion that grows one table of keys and groups.  At every moment the
key of a group describes each of its members: the member's atoms, and for each of its references
the group of that reference, or the object itself where its key was still being computed.
-/

namespace SceneCompiler.Grouping

variable {n : Nat}

structure Extends (s t : Grouping n) : Prop where
  keys : ∀ (k : Nat) (key : Key n), s.keys[k]? = some key → t.keys[k]? = some key
  groups : ∀ (i : Fin n) (k : Nat), s.groups.lookup i = some k → t.groups.lookup i = some k

theorem Extends.refl (s : Grouping n) : s.Extends s :=
  ⟨fun _ _ h => h, fun _ _ h => h⟩

theorem Extends.trans {s t u : Grouping n} (h : s.Extends t) (k : t.Extends u) : s.Extends u :=
  ⟨fun i key hi => k.keys i key (h.keys i key hi),
    fun i g hi => k.groups i g (h.groups i g hi)⟩

def Labels (s : Grouping n) (l : Label n) (i : Fin n) : Prop :=
  l = .unfinished i ∨ ∃ k, l = .group k ∧ s.groups.lookup i = some k

theorem Labels.mono {s t : Grouping n} (hst : s.Extends t) {l : Label n} {i : Fin n}
    (h : s.Labels l i) : t.Labels l i := by
  rcases h with h | ⟨k, hl, hk⟩
  · exact .inl h
  · exact .inr ⟨k, hl, hst.groups i k hk⟩

variable (heap : Heap n) (atoms : Fin n → Option (List Atom))

def Describes (s : Grouping n) (i : Fin n) : Key n → Prop
  | .alone j => j = i ∧ atoms i = none
  | .shared fields labels =>
    atoms i = some fields ∧ List.Forall₂ s.Labels labels heap[i].references

theorem Describes.mono {s t : Grouping n} (hst : s.Extends t) {i : Fin n} {key : Key n}
    (h : s.Describes heap atoms i key) : t.Describes heap atoms i key := by
  cases key with
  | alone j => exact h
  | shared fields labels => exact ⟨h.1, h.2.imp fun _ _ hl => hl.mono hst⟩

def Sound (s : Grouping n) : Prop :=
  ∀ (i : Fin n) (k : Nat), s.groups.lookup i = some k →
    ∃ key, s.keys[k]? = some key ∧ s.Describes heap atoms i key

theorem sound_empty : Sound heap atoms ({} : Grouping n) := by
  intro i k h
  simp at h

theorem insert_spec (s : Grouping n) (i : Fin n) (key : Key n) :
    s.Extends (s.insert i key).2 ∧
      ∃ k, (s.insert i key).1 = .group k ∧ (s.insert i key).2.groups = s.groups ++ [(i, k)] ∧
        (s.insert i key).2.keys[k]? = some key := by
  have hgrow : ∀ (k : Nat) (j : Fin n) (g : Nat), s.groups.lookup j = some g →
      (s.groups ++ [(i, k)]).lookup j = some g := by
    intro k j g hj
    rw [List.lookup_append, hj]
    rfl
  unfold insert
  cases hkey : s.keys.idxOf? key with
  | some k =>
    obtain ⟨hk, hget, _⟩ := List.idxOf?_eq_some_iff.mp hkey
    refine ⟨⟨fun _ _ h => h, hgrow k⟩, k, rfl, rfl, ?_⟩
    rw [List.getElem?_eq_getElem hk, hget]
  | none =>
    refine ⟨⟨fun k key' h => ?_, hgrow _⟩, _, rfl, rfl, ?_⟩
    · have hk : k < s.keys.length := (List.getElem?_eq_some_iff.mp h).1
      simpa [List.getElem?_append_left hk] using h
    · simp

theorem getElem?_keys_insert {s : Grouping n} {i : Fin n} {key old : Key n} {a : Nat}
    (h : (s.insert i key).2.keys[a]? = some old) :
    s.keys[a]? = some old ∨ (s.insert i key).1 = .group a := by
  unfold insert at h ⊢
  cases hkey : s.keys.idxOf? key with
  | some k =>
    rw [hkey] at h
    exact .inl h
  | none =>
    simp only [hkey, List.getElem?_append] at h ⊢
    split at h
    · exact .inl h
    · have ha := (List.getElem?_eq_some_iff.mp h).1
      simp only [List.length_singleton] at ha
      exact .inr (by rw [show a = s.keys.length by omega])

theorem nodup_keys_insert {s : Grouping n} (hs : s.keys.Nodup) (i : Fin n) (key : Key n) :
    (s.insert i key).2.keys.Nodup := by
  unfold insert
  cases hkey : s.keys.idxOf? key with
  | some k => exact hs
  | none =>
    have hnew : key ∉ s.keys := List.idxOf?_eq_none_iff.mp hkey
    exact List.nodup_append.mpr ⟨hs, List.pairwise_singleton _ key, fun a ha b hb hab =>
      hnew (List.mem_singleton.mp hb ▸ hab ▸ ha)⟩

theorem lookup_append_new {groups : List (Fin n × Nat)} {i : Fin n} (hi : groups.lookup i = none)
    (k : Nat) (j : Fin n) :
    (groups ++ [(i, k)]).lookup j = if j = i then some k else groups.lookup j := by
  rw [List.lookup_append]
  split
  · rename_i h
    rw [h, hi]
    simp
  · rename_i h
    cases hj : groups.lookup j <;> simp [List.lookup_cons, beq_false_of_ne h]

theorem insert_sound {s : Grouping n} {i : Fin n} {key : Key n} (hs : Sound heap atoms s)
    (hnew : s.groups.lookup i = none) (hkey : s.Describes heap atoms i key) :
    Sound heap atoms (s.insert i key).2 := by
  obtain ⟨hext, k, _, hgroups, hget⟩ := insert_spec s i key
  intro j g hj
  rw [hgroups, lookup_append_new hnew] at hj
  split at hj
  · rename_i hji
    cases hj
    rw [hji]
    exact ⟨key, hget, hkey.mono heap atoms hext⟩
  · obtain ⟨key', hkey', hdesc⟩ := hs j g hj
    exact ⟨key', hext.keys g key' hkey', hdesc.mono heap atoms hext⟩

/-- What labelling one object does, the objects in `active` being left alone. -/
structure Step (active : List (Fin n)) (s : Grouping n) (result : Label n × Grouping n)
    (i : Fin n) : Prop where
  sound : Sound heap atoms result.2
  extend : s.Extends result.2
  label : result.2.Labels result.1 i
  active : ∀ a ∈ active, result.2.groups.lookup a = s.groups.lookup a

theorem labels_spec {find : Grouping n → Fin n → Label n × Grouping n} {active : List (Fin n)}
    (hfind : ∀ (s : Grouping n) (i : Fin n), Sound heap atoms s →
      Step heap atoms active s (find s i) i)
    (s : Grouping n) (hs : Sound heap atoms s) (is : List (Fin n)) :
    Sound heap atoms (labels find s is).2 ∧ s.Extends (labels find s is).2 ∧
      List.Forall₂ (labels find s is).2.Labels (labels find s is).1 is ∧
      ∀ a ∈ active, (labels find s is).2.groups.lookup a = s.groups.lookup a := by
  induction is generalizing s with
  | nil => exact ⟨hs, .refl s, .nil, fun _ _ => rfl⟩
  | cons i rest ih =>
    have hfirst := hfind s i hs
    obtain ⟨hsound, hextend, hlabels, hactive⟩ := ih (find s i).2 hfirst.sound
    refine ⟨hsound, hfirst.extend.trans hextend, .cons (hfirst.label.mono hextend) hlabels, ?_⟩
    intro a ha
    exact (hactive a ha).trans (hfirst.active a ha)

theorem label_spec (fuel : Nat) (active : List (Fin n)) (s : Grouping n) (i : Fin n)
    (hs : Sound heap atoms s) :
    Step heap atoms active s (label heap atoms fuel active s i) i := by
  induction fuel generalizing active s i with
  | zero => exact ⟨hs, .refl s, .inl rfl, fun _ _ => rfl⟩
  | succ fuel ih =>
    rw [label]
    split
    · rename_i k hk
      exact ⟨hs, .refl s, .inr ⟨k, rfl, hk⟩, fun _ _ => rfl⟩
    · rename_i hnone
      by_cases hactive : i ∈ active
      · rw [if_pos (by simpa using hactive)]
        exact ⟨hs, .refl s, .inl rfl, fun _ _ => rfl⟩
      · rw [if_neg (by simpa using hactive)]
        -- both kinds of key end with an insertion of `i`, which is new and not active
        have hinsert : ∀ (t : Grouping n) (key : Key n), Sound heap atoms t → s.Extends t →
            t.groups.lookup i = none → t.Describes heap atoms i key →
            (∀ a ∈ active, t.groups.lookup a = s.groups.lookup a) →
            Step heap atoms active s (t.insert i key) i := by
          intro t key ht hst hi hkey hlook
          obtain ⟨hext, k, hlabel, hgroups, _⟩ := insert_spec t i key
          refine ⟨insert_sound heap atoms ht hi hkey, hst.trans hext, .inr ⟨k, hlabel, ?_⟩, ?_⟩
          · rw [hgroups, lookup_append_new hi, if_pos rfl]
          · intro a ha
            have hne : a ≠ i := fun h => hactive (h ▸ ha)
            rw [hgroups, lookup_append_new hi, if_neg hne, hlook a ha]
        split
        · rename_i hatoms
          exact hinsert s (.alone i) hs (.refl s) hnone ⟨rfl, hatoms⟩ fun _ _ => rfl
        · rename_i fields hatoms
          obtain ⟨hsound, hextend, hlabels, hlook⟩ :=
            labels_spec heap atoms (fun t j ht => ih (i :: active) t j ht) s hs
              heap[i].references
          refine hinsert _ _ hsound hextend ?_ ⟨hatoms, hlabels⟩ fun a ha => ?_
          · rw [hlook i List.mem_cons_self, hnone]
          · exact hlook a (List.mem_cons_of_mem _ ha)

theorem label_grouped (fuel : Nat) (s : Grouping n) (i : Fin n) (hs : Sound heap atoms s) :
    ∃ k, (label heap atoms (fuel + 1) [] s i).2.groups.lookup i = some k := by
  have hstep := label_spec heap atoms (fuel + 1) [] s i hs
  rcases hstep.label with hlabel | ⟨k, _, hk⟩
  · rw [label] at hlabel
    split at hlabel
    · cases hlabel
    · simp only [List.contains_nil, Bool.false_eq_true, if_false] at hlabel
      have hinsert : ∀ (t : Grouping n) (key : Key n), (t.insert i key).1 ≠ .unfinished i := by
        intro t key h
        obtain ⟨_, k, hk, _⟩ := insert_spec t i key
        rw [hk] at h
        cases h
      split at hlabel <;> exact absurd hlabel (hinsert _ _)
  · exact ⟨k, hk⟩

theorem foldl_label_spec (is : List (Fin n)) (s : Grouping n) (hs : Sound heap atoms s) :
    let t := is.foldl (fun s i => (label heap atoms (n + 1) [] s i).2) s
    Sound heap atoms t ∧ s.Extends t ∧ ∀ i ∈ is, ∃ k, t.groups.lookup i = some k := by
  induction is generalizing s with
  | nil => exact ⟨hs, .refl s, fun i hi => absurd hi List.not_mem_nil⟩
  | cons i rest ih =>
    have hstep := label_spec heap atoms (n + 1) [] s i hs
    obtain ⟨hsound, hextend, hrest⟩ := ih _ hstep.sound
    refine ⟨hsound, hstep.extend.trans hextend, ?_⟩
    intro j hj
    rcases List.mem_cons.mp hj with rfl | hj
    · obtain ⟨k, hk⟩ := label_grouped heap atoms n s j hs
      exact ⟨k, hextend.groups j k hk⟩
    · exact hrest j hj

theorem ofGraph_sound (g : Graph n) : Sound g.heap atoms (ofGraph g atoms) :=
  (foldl_label_spec g.heap atoms g.order {} (sound_empty g.heap atoms)).1

theorem ofGraph_grouped (g : Graph n) {i : Fin n} (hi : i ∈ g.order) :
    ∃ k, (ofGraph g atoms).groups.lookup i = some k :=
  (foldl_label_spec g.heap atoms g.order {} (sound_empty g.heap atoms)).2.2 i hi

def Alike (s : Grouping n) (i j : Fin n) : Prop :=
  i = j ∨ ∃ k, s.groups.lookup i = some k ∧ s.groups.lookup j = some k

theorem labels_alike {s : Grouping n} {ls : List (Label n)} {is js : List (Fin n)}
    (hi : List.Forall₂ s.Labels ls is) (hj : List.Forall₂ s.Labels ls js) :
    List.Forall₂ s.Alike is js := by
  induction hi generalizing js with
  | nil =>
    cases hj
    exact .nil
  | cons hl _ ih =>
    cases hj with
    | cons hl' hrest =>
      refine .cons ?_ (ih hrest)
      rcases hl with rfl | ⟨k, rfl, hk⟩ <;> rcases hl' with h | ⟨k', h, hk'⟩ <;> cases h
      · exact .inl rfl
      · exact .inr ⟨k, hk, hk'⟩

theorem Sound.alike {s : Grouping n} (hs : Sound heap atoms s) {i j : Fin n} {k : Nat}
    (hi : s.groups.lookup i = some k) (hj : s.groups.lookup j = some k) :
    i = j ∨ ∃ fields, atoms i = some fields ∧ atoms j = some fields ∧
      List.Forall₂ s.Alike heap[i].references heap[j].references := by
  obtain ⟨key, hkey, hdesc⟩ := hs i k hi
  obtain ⟨key', hkey', hdesc'⟩ := hs j k hj
  rw [hkey] at hkey'
  cases hkey'
  cases key with
  | alone a => exact .inl (hdesc.1.symm.trans hdesc'.1)
  | shared fields labels =>
    exact .inr ⟨fields, hdesc.1, hdesc'.1, labels_alike hdesc.2 hdesc'.2⟩

end SceneCompiler.Grouping
