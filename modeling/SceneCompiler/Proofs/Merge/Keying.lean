import Mathlib.Data.Fintype.Card
import SceneCompiler.Proofs.Graph.Walk
import SceneCompiler.Proofs.Merge.Grouping
import SceneCompiler.Proofs.Model.Lookup

/-!
# The computation of keys

The computation of a key is cut short where it comes back to an object whose key is being
computed.  It is followed here with one state that holds these objects, and with a record of the
keys begun and the answers given.  It ends, does not fail, begins each key once, and repeats the
group that it gave.
-/

namespace SceneCompiler

variable {n : Nat}

structure Keying (n : Nat) where
  grouping : Grouping n := {}
  active : List (Fin n) := []
  begun : List (Fin n) := []
  answers : List (Fin n × Label n) := []

inductive Halt where
  | fault (f : Fault)
  | exhausted

namespace Keying

abbrev Run (n : Nat) := StateT (Keying n) (Except Halt)

def enter (s : Keying n) (i : Fin n) : Keying n :=
  { s with active := i :: s.active, begun := s.begun ++ [i] }

def answer (s : Keying n) (i : Fin n) (l : Label n) : Label n × Keying n :=
  (l, { s with answers := s.answers ++ [(i, l)] })

def leave (s : Keying n) (i : Fin n) (key : Key n) : Label n × Keying n :=
  let inserted := s.grouping.insert i key
  answer { s with grouping := inserted.2, active := s.active.erase i } i inserted.1

def ask (g : Graph n) (find : Fin n → Run n (Label n)) (r : Fin n) : Run n (Label n) :=
  match g.find r with
  | .error f => throw (.fault f)
  | .ok _ => find r

def evaluate (g : Graph n) (atoms : Fin n → Option (List Atom)) : (fuel : Nat) → Fin n →
    Run n (Label n)
  | 0, _ => throw .exhausted
  | fuel + 1, i => do
    let s ← get
    match s.grouping.groups.lookup i with
    | some k => modifyGet (answer · i (.group k))
    | none =>
      if s.active.contains i then modifyGet (answer · i (.unfinished i))
      else
        set (s.enter i)
        match atoms i with
        | none => modifyGet (leave · i (.alone i))
        | some fields =>
          let labels ← (g.outReferences i).mapM (ask g (evaluate g atoms fuel))
          modifyGet (leave · i (.shared fields labels))

def evaluateAll (g : Graph n) (atoms : Fin n → Option (List Atom)) : List (Fin n) →
    Run n (List (Label n × Keying n))
  | [] => return []
  | i :: rest => do
    let l ← evaluate g atoms (n + 1) i
    let s ← get
    let others ← evaluateAll g atoms rest
    return (l, s) :: others

def Repeats (a b : Fin n × Label n) : Prop :=
  a.1 = b.1 → ∀ k, a.2 = .group k → b.2 = .group k

structure Valid (g : Graph n) (s : Keying n) : Prop where
  begun : s.begun.Perm (s.grouping.groups.map Prod.fst ++ s.active)
  nodup : s.begun.Nodup
  inside : s.begun ⊆ g.order
  interned : ∀ i k, s.grouping.groups.lookup i = some k → ∃ key, s.grouping.keys[k]? = some key
  told : ∀ i k, (i, .group k) ∈ s.answers → s.grouping.groups.lookup i = some k
  repeats : s.answers.Pairwise Repeats

variable {g : Graph n} {atoms : Fin n → Option (List Atom)} {s : Keying n} {i : Fin n}

theorem valid_empty : Valid g {} :=
  ⟨.nil, List.nodup_nil, List.nil_subset _, by simp, by simp, .nil⟩

theorem Valid.nodup_parts (hs : s.Valid g) :
    (s.grouping.groups.map Prod.fst ++ s.active).Nodup :=
  hs.begun.nodup_iff.mp hs.nodup

theorem Valid.enter (hs : s.Valid g) (hi : i ∈ g.order)
    (hnew : s.grouping.groups.lookup i = none) (hactive : i ∉ s.active) : (s.enter i).Valid g := by
  have hbegun : i ∉ s.begun := by
    rw [hs.begun.mem_iff, List.mem_append, not_or]
    exact ⟨lookup_eq_none_iff_key.mp hnew, hactive⟩
  refine ⟨?_, ?_, ?_, hs.interned, hs.told, hs.repeats⟩
  · exact (List.perm_append_singleton i _).trans ((hs.begun.cons i).trans List.perm_middle.symm)
  · exact List.nodup_append.mpr ⟨hs.nodup, List.nodup_singleton i,
      fun a ha b hb hab => hbegun (List.mem_singleton.mp hb ▸ hab ▸ ha)⟩
  · exact List.append_subset.mpr ⟨hs.inside, List.cons_subset.mpr ⟨hi, List.nil_subset _⟩⟩

theorem Valid.answer (hs : s.Valid g) {l : Label n}
    (hl : ∀ k, s.grouping.groups.lookup i = some k ↔ l = .group k) : (s.answer i l).2.Valid g := by
  refine ⟨hs.begun, hs.nodup, hs.inside, hs.interned, fun j k hmem => ?_, ?_⟩
  · rcases List.mem_append.mp hmem with hmem | hmem
    · exact hs.told j k hmem
    · obtain ⟨rfl, hk⟩ := Prod.mk.inj (List.mem_singleton.mp hmem)
      exact (hl k).mpr hk.symm
  · refine List.pairwise_append.mpr ⟨hs.repeats, List.pairwise_singleton _ _, ?_⟩
    rintro ⟨j, l'⟩ hmem b hb hj k hk
    obtain rfl := List.mem_singleton.mp hb
    obtain rfl : j = i := hj
    exact (hl k).mp (hs.told j k (hk ▸ hmem))

structure Finds (g : Graph n) (s : Keying n) (i : Fin n) (result : Label n × Keying n) : Prop where
  valid : result.2.Valid g
  active : result.2.active = s.active
  last : result.2.answers.getLast? = some (i, result.1)
  grows : s.answers <+: result.2.answers
  grouped : i ∉ s.active → ∃ k, result.1 = .group k

theorem Valid.leave (hs : s.Valid g) {rest : List (Fin n)} (hactive : s.active = i :: rest)
    (key : Key n) :
    (s.leave i key).2.Valid g ∧ (s.leave i key).2.active = rest ∧
      ∃ k, (s.leave i key).1 = .group k := by
  have hnodup := hs.nodup_parts
  rw [hactive, List.nodup_append] at hnodup
  have hnew : s.grouping.groups.lookup i = none := lookup_eq_none_iff_key.mpr fun hmem =>
    hnodup.2.2 i hmem i List.mem_cons_self rfl
  obtain ⟨hextends, k, hlabel, hgroups, hkey⟩ := Grouping.insert_spec s.grouping i key
  have hlookup (j : Fin n) : (s.grouping.insert i key).2.groups.lookup j =
      if j = i then some k else s.grouping.groups.lookup j := by
    rw [hgroups, Grouping.lookup_append_new hnew]
  have herase : s.active.erase i = rest := by rw [hactive, List.erase_cons_head]
  have hvalid : Valid g { s with
      grouping := (s.grouping.insert i key).2, active := s.active.erase i } := by
    refine ⟨?_, hs.nodup, hs.inside, fun j a ha => ?_, fun j a ha => ?_, hs.repeats⟩
    · simpa [hgroups, herase, hactive] using hs.begun
    · rw [hlookup] at ha
      split at ha
      · cases ha
        exact ⟨key, hkey⟩
      · obtain ⟨old, hold⟩ := hs.interned j a ha
        exact ⟨old, hextends.keys a old hold⟩
    · exact hextends.groups j a (hs.told j a ha)
  refine ⟨hvalid.answer fun a => ?_, herase, k, hlabel⟩
  rw [hlookup, if_pos rfl, hlabel, Option.some.injEq, Label.group.injEq]

/-! ## Running the computation -/

theorem bind_ok {α β : Type} {x : Run n α} {f : α → Run n β} {s t : Keying n} {a : α}
    (h : x s = .ok (a, t)) : (x >>= f) s = f a t := by
  change Except.bind (x s) _ = _
  rw [h]
  rfl

/-- With the objects of `active` in the making, a run ends without a fault, and gives what `plain`
gives. -/
def Follows (g : Graph n) (active : List (Fin n)) (x : Run n (Label n)) (i : Fin n)
    (plain : Grouping n → Fin n → Label n × Grouping n) : Prop :=
  ∀ s : Keying n, s.Valid g → s.active = active → ∃ l t,
    x s = .ok (l, t) ∧ (l, t.grouping) = plain s.grouping i ∧ Finds g s i (l, t)

variable {active : List (Fin n)}

theorem Follows.ask {find : Fin n → Run n (Label n)}
    {plain : Grouping n → Fin n → Label n × Grouping n} (h : Follows g active (find i) i plain)
    (hi : i ∈ g.order) :
    Follows g active (ask g find i) i plain := by
  have hinside : g.find i = .ok (g.index i) := if_pos (List.contains_iff_mem.mpr hi)
  unfold Keying.ask
  rwa [hinside]

theorem mapM_ok {find : Fin n → Run n (Label n)} {plain : Grouping n → Fin n → Label n × Grouping n}
    {is : List (Fin n)} (hfind : ∀ i ∈ is, Follows g active (find i) i plain) {s : Keying n}
    (hs : s.Valid g) (hactive : s.active = active) :
    ∃ ls t, is.mapM find s = .ok (ls, t) ∧
      (ls, t.grouping) = Grouping.labels plain s.grouping is ∧ t.Valid g ∧ t.active = active ∧
      s.answers <+: t.answers := by
  induction is generalizing s with
  | nil => exact ⟨[], s, rfl, rfl, hs, hactive, List.prefix_rfl⟩
  | cons i rest ih =>
    obtain ⟨l, t, hrun, hplain, hfinds⟩ := hfind i List.mem_cons_self s hs hactive
    obtain ⟨ls, u, hrest, hlabels, hu, huactive, hgrows⟩ :=
      ih (fun j hj => hfind j (List.mem_cons_of_mem _ hj)) hfinds.valid
        (hfinds.active.trans hactive)
    refine ⟨l :: ls, u, ?_, ?_, hu, huactive, hfinds.grows.trans hgrows⟩
    · rw [List.mapM_cons, bind_ok hrun, bind_ok hrest]
      rfl
    · rw [Grouping.labels, ← hplain]
      dsimp only
      rw [← hlabels]

variable (atoms)

/-- Finding a label ends without a fault.  The active objects are all different, so that the fuel
lasts. -/
theorem follows_evaluate (hg : g.Ordered) (fuel : Nat) (hi : i ∈ g.order)
    (hfuel : n + 1 ≤ fuel + active.length) :
    Follows g active (evaluate g atoms fuel i) i (Grouping.label g.heap atoms fuel active) := by
  induction fuel generalizing active i with
  | zero =>
    intro s hs hactive
    have hle := (List.nodup_append.mp hs.nodup_parts).2.1.length_le_card
    rw [Fintype.card_fin, hactive] at hle
    omega
  | succ fuel ih =>
    rintro s hs rfl
    have hlast {l : Label n} {t : Keying n} :
        (t.answer i l).2.answers.getLast? = some (i, l) := by simp [answer]
    rw [evaluate, bind_ok rfl, Grouping.label]
    cases hnew : s.grouping.groups.lookup i with
    | some k =>
      have hvalid : (s.answer i (.group k)).2.Valid g := hs.answer fun a => by
        rw [hnew, Option.some.injEq, Label.group.injEq]
      exact ⟨_, _, rfl, rfl, hvalid, rfl, hlast, List.prefix_append _ _, fun _ => ⟨k, rfl⟩⟩
    | none =>
      by_cases hactive : i ∈ s.active
      · have hvalid : (s.answer i (.unfinished i)).2.Valid g :=
          hs.answer fun a => by simp [hnew]
        simp only [List.contains_iff_mem.mpr hactive, if_true]
        exact ⟨_, _, rfl, rfl, hvalid, rfl, hlast, List.prefix_append _ _,
          fun h => absurd hactive h⟩
      · simp only [List.contains_iff_mem, hactive, if_false]
        have henter := hs.enter hi hnew hactive
        -- both kinds of key end with taking `i` off the active objects
        have hleave (t : Keying n) (ht : t.Valid g) (htactive : t.active = i :: s.active)
            (hgrows : s.answers <+: t.answers) (key : Key n) : Finds g s i (t.leave i key) := by
          obtain ⟨hvalid, hrest, hgroup⟩ := ht.leave htactive key
          exact ⟨hvalid, hrest, hlast, hgrows.trans (List.prefix_append _ _), fun _ => hgroup⟩
        rw [bind_ok rfl]
        cases atoms i with
        | none => exact ⟨_, _, rfl, rfl, hleave _ henter rfl List.prefix_rfl _⟩
        | some fields =>
          have hask : ∀ r ∈ g.outReferences i, Follows g (i :: s.active)
              (ask g (evaluate g atoms fuel) r) r
              (Grouping.label g.heap atoms fuel (i :: s.active)) := by
            intro r hr
            have hmem : r ∈ g.order := hg.closed i hi hr
            exact (ih hmem (by rw [List.length_cons]; omega)).ask hmem
          obtain ⟨ls, t, hrun, hlabels, ht, htactive, hgrows⟩ := mapM_ok hask henter rfl
          refine ⟨_, _, bind_ok hrun, ?_, hleave t ht htactive hgrows _⟩
          exact congrArg
            (fun labelled => labelled.2.insert i (.shared fields labelled.1)) hlabels

/-- What a call with no key in the making gives, and the state after it. -/
structure Answered (i : Fin n) (call : Label n × Keying n) : Prop where
  active : call.2.active = []
  interned : ∃ k < call.2.grouping.keys.length, call.1 = .group k
  last : call.2.answers.getLast? = some (i, call.1)

theorem Finds.answered {result : Label n × Keying n} (h : Finds g s i result)
    (hactive : s.active = []) : Answered i result := by
  obtain ⟨k, hk⟩ := h.grouped (by rw [hactive]; exact List.not_mem_nil)
  have htold : (i, .group k) ∈ result.2.answers := hk ▸ List.mem_of_getLast? h.last
  obtain ⟨key, hkey⟩ := h.valid.interned i k (h.valid.told i k htold)
  exact ⟨h.active.trans hactive, ⟨k, (List.getElem?_eq_some_iff.mp hkey).1, hk⟩, h.last⟩

theorem evaluateAll_spec (hg : g.Ordered) {is : List (Fin n)} (his : is ⊆ g.order) {s : Keying n}
    (hs : s.Valid g) (hactive : s.active = []) :
    ∃ calls t, evaluateAll g atoms is s = .ok (calls, t) ∧
      t.grouping = is.foldl (fun s i => (Grouping.label g.heap atoms (n + 1) [] s i).2) s.grouping ∧
      t.Valid g ∧ t.active = [] ∧ s.answers <+: t.answers ∧
      List.Forall₂ (fun i call => Answered i call ∧ call.2.answers <+: t.answers) is calls := by
  induction is generalizing s with
  | nil => exact ⟨[], s, rfl, rfl, hs, hactive, List.prefix_rfl, .nil⟩
  | cons i rest ih =>
    obtain ⟨hi, hrest⟩ := List.cons_subset.mp his
    obtain ⟨l, u, hrun, hplain, hfinds⟩ :=
      follows_evaluate atoms hg (n + 1) hi (by simp) s hs hactive
    have hanswered := hfinds.answered hactive
    obtain ⟨calls, t, hcalls, hgrouping, ht, htactive, hgrows, hall⟩ :=
      ih hrest hfinds.valid hanswered.active
    refine ⟨(l, u) :: calls, t, ?_, ?_, ht, htactive, hfinds.grows.trans hgrows,
      .cons ⟨hanswered, hgrows⟩ hall⟩
    · rw [evaluateAll, bind_ok hrun, bind_ok rfl, bind_ok hcalls]
      rfl
    · rw [hgrouping, List.foldl_cons, ← hplain]

theorem foldl_label_of_grouped {is : List (Fin n)} {grouping : Grouping n}
    (h : ∀ i ∈ is, ∃ k, grouping.groups.lookup i = some k) :
    is.foldl (fun s i => (Grouping.label g.heap atoms (n + 1) [] s i).2) grouping = grouping := by
  induction is with
  | nil => rfl
  | cons i rest ih =>
    obtain ⟨⟨k, hk⟩, hrest⟩ := List.forall_mem_cons.mp h
    rw [List.foldl_cons, Grouping.label, hk]
    exact ih hrest

end Keying

/-- Labelling the objects of a graph in order, and then some of them again, ends without a fault, and
groups them as merging does.  The key of each object is begun once.  Each call leaves no key in the
making and answers with a group that has a key, and every later answer for the same object, inside the
computation of another key too, is that group. -/
theorem keys_begun_once (heap : Heap n) (root : Fin n) (atoms : Fin n → Option (List Atom))
    (again : List { i // i ∈ (Graph.ofRoot heap root).order }) :
    let g := Graph.ofRoot heap root
    let asked := g.order ++ again.map Subtype.val
    ∃ calls t, Keying.evaluateAll g atoms asked {} = .ok (calls, t) ∧
      t.grouping = Grouping.ofGraph g atoms ∧
      t.begun.Nodup ∧ t.begun.Perm g.order ∧
      List.Forall₂ (fun i call => Keying.Answered i call ∧ call.2.answers <+: t.answers)
        asked calls ∧
      t.answers.Pairwise Keying.Repeats := by
  intro g asked
  have hg : g.Ordered := Graph.ofRoot_ordered heap root
  have hagain : again.map Subtype.val ⊆ g.order := by
    intro i hi
    obtain ⟨j, _, rfl⟩ := List.mem_map.mp hi
    exact j.2
  obtain ⟨calls, t, hrun, hgrouping, ht, _, _, hall⟩ := Keying.evaluateAll_spec atoms hg
    (List.append_subset.mpr ⟨List.Subset.refl g.order, hagain⟩) Keying.valid_empty rfl
  have hgroups : t.grouping = Grouping.ofGraph g atoms := by
    rw [hgrouping, List.foldl_append]
    exact Keying.foldl_label_of_grouped atoms fun i hi => Grouping.ofGraph_grouped atoms g (hagain hi)
  refine ⟨calls, t, hrun, hgroups, ht.nodup, ?_, hall, ht.repeats⟩
  rw [List.perm_ext_iff_of_nodup ht.nodup hg.nodup]
  intro i
  refine ⟨fun hi => ht.inside hi, fun hi => ?_⟩
  obtain ⟨k, hk⟩ := Grouping.ofGraph_grouped atoms g hi
  rw [ht.begun.mem_iff, List.mem_append, hgroups]
  exact .inl (List.mem_map_of_mem (mem_of_lookup hk))

end SceneCompiler
