import SceneCompiler.Proofs.Constructor.Visit

/-!
# Reading what has been entered

While the root is visited, every object that is read has been entered before exactly if the
depth-first order of the merged graph has each object after the earlier objects to which it refers.
Where it has, objects are entered for the first time in that order.
-/

namespace SceneCompiler

variable {n : Nat}

def Mark.entered (marks : List (Mark n)) : List (Fin n) :=
  marks.filterMap fun mark =>
    match mark with
    | .enter i => some i
    | _ => none

/-- Every object that is read has been entered, in the past or by an earlier mark. -/
def Mark.ReadsEntered : (past : List (Fin n)) → List (Mark n) → Prop
  | _, [] => True
  | past, .enter i :: rest => ReadsEntered (past ++ [i]) rest
  | past, .create _ :: rest => ReadsEntered past rest
  | past, .read _ j :: rest => j ∈ past ∧ ReadsEntered past rest

namespace Mark

@[simp] theorem entered_append (left right : List (Mark n)) :
    entered (left ++ right) = entered left ++ entered right :=
  List.filterMap_append

@[simp] theorem entered_cons_enter (i : Fin n) (rest : List (Mark n)) :
    entered (.enter i :: rest) = i :: entered rest := rfl

@[simp] theorem entered_cons_create (i : Fin n) (rest : List (Mark n)) :
    entered (.create i :: rest) = entered rest := rfl

@[simp] theorem entered_cons_read (i j : Fin n) (rest : List (Mark n)) :
    entered (.read i j :: rest) = entered rest := rfl

theorem mem_entered {marks : List (Mark n)} {i : Fin n} :
    i ∈ entered marks ↔ .enter i ∈ marks := by
  simp only [entered, List.mem_filterMap]
  constructor
  · rintro ⟨mark, hmark, heq⟩
    cases mark with
    | enter j =>
      cases heq
      exact hmark
    | create j => cases heq
    | read j k => cases heq
  · intro h
    exact ⟨_, h, rfl⟩

theorem readsEntered_append {past : List (Fin n)} {left right : List (Mark n)} :
    ReadsEntered past (left ++ right) ↔
      ReadsEntered past left ∧ ReadsEntered (past ++ entered left) right := by
  induction left generalizing past with
  | nil => simp [ReadsEntered, entered]
  | cons mark left ih =>
    cases mark with
    | enter i => simp [ReadsEntered, ih]
    | create i => simp [ReadsEntered, ih]
    | read i j => simp [ReadsEntered, ih, and_assoc]

theorem readsEntered_of_reads {past : List (Fin n)} {marks : List (Mark n)}
    (h : ∀ i j, .read i j ∈ marks → j ∈ past) : ReadsEntered past marks := by
  induction marks generalizing past with
  | nil => trivial
  | cons mark marks ih =>
    have hrest : ∀ i j, .read i j ∈ marks → j ∈ past := fun i j hread =>
      h i j (List.mem_cons_of_mem _ hread)
    cases mark with
    | enter i => exact ih fun a b hread => List.mem_append_left _ (hrest a b hread)
    | create i => exact ih hrest
    | read i j => exact ⟨h i j List.mem_cons_self, ih hrest⟩

theorem readsEntered_iff {past : List (Fin n)} {marks : List (Mark n)} :
    ReadsEntered past marks ↔
      ∀ left i j right, marks = left ++ .read i j :: right → j ∈ past ++ entered left := by
  constructor
  · rintro h left i j right rfl
    exact (readsEntered_append.mp h).2.1
  · intro h
    induction marks generalizing past with
    | nil => trivial
    | cons mark marks ih =>
      cases mark with
      | enter i =>
        refine ih fun left a b right heq => ?_
        simpa using h (.enter i :: left) a b right (by rw [heq]; rfl)
      | create i =>
        refine ih fun left a b right heq => ?_
        simpa using h (.create i :: left) a b right (by rw [heq]; rfl)
      | read i j =>
        refine ⟨by simpa [entered] using h [] i j marks rfl, ih fun left a b right heq => ?_⟩
        simpa using h (.read i j :: left) a b right (by rw [heq]; rfl)

end Mark

namespace Merge

variable (m : Merge n)

def buildOrder : List (Fin n) :=
  Graph.depthFirst m.targets m.graph.root

/-- In the depth-first order of the merged graph, an object comes after the earlier objects to which
it refers. -/
def KeepsOrder : Prop :=
  ∀ i ∈ m.representatives, ∀ j ∈ m.targets i, m.graph.index j < m.graph.index i →
    m.buildOrder.idxOf j < m.buildOrder.idxOf i

instance : Decidable m.KeepsOrder :=
  inferInstanceAs (Decidable (∀ i ∈ m.representatives, ∀ j ∈ m.targets i, _ → _))

/-- The depth-first search, where the earlier objects to which an object refers have been seen when
it is first visited. -/
inductive Climbs : (pending seen after : List (Fin n)) → Prop
  | done (seen : List (Fin n)) : Climbs [] seen seen
  | skip {i : Fin n} {rest seen after : List (Fin n)} :
      i ∈ seen → Climbs rest seen after → Climbs (i :: rest) seen after
  | visit {i : Fin n} {rest seen between after : List (Fin n)} :
      i ∉ seen → (∀ j ∈ m.targets i, m.graph.index j < m.graph.index i → j ∈ seen) →
      Climbs (m.targets i) (seen ++ [i]) between → Climbs rest between after →
      Climbs (i :: rest) seen after

variable {m}

namespace Climbs

theorem explores {pending seen after : List (Fin n)} (h : m.Climbs pending seen after) :
    Graph.Explores m.targets pending seen after := by
  induction h with
  | done seen => exact .done seen
  | skip hseen _ ih => exact .skip hseen ih
  | visit hnew _ _ _ ihBelow ihRest => exact .visit hnew ihBelow ihRest

theorem idxOf_lt {pending seen after : List (Fin n)} (h : m.Climbs pending seen after)
    {i j : Fin n} (hi : i ∈ after) (hnew : i ∉ seen) (hj : j ∈ m.targets i)
    (hlt : m.graph.index j < m.graph.index i) : after.idxOf j < after.idxOf i := by
  induction h with
  | done seen => exact absurd hi hnew
  | skip _ _ ih => exact ih hi hnew
  | @visit k rest seen between after hk hback hbelow hrest ihBelow ihRest =>
    have hbetween : i ∈ between → after.idxOf j < after.idxOf i := by
      intro hmem
      by_cases hik : i = k
      · subst hik
        have hjseen := hback j hj hlt
        have hj' : j ∈ between := hbelow.explores.mem_of_seen (by simp [hjseen])
        rw [hrest.explores.idxOf_eq hj', hrest.explores.idxOf_eq hmem,
          hbelow.explores.idxOf_eq (by simp [hjseen]), hbelow.explores.idxOf_eq (by simp),
          List.idxOf_append_of_mem hjseen, List.idxOf_append_of_notMem hnew]
        exact lt_of_lt_of_le (List.idxOf_lt_length_of_mem hjseen) (Nat.le_add_right _ _)
      · have hbelowLt := ihBelow hmem (by simp [hnew, hik])
        have hj' : j ∈ between := hbelow.explores.closed hmem (by simp [hnew, hik]) hj
        rwa [hrest.explores.idxOf_eq hj', hrest.explores.idxOf_eq hmem]
    by_cases hmem : i ∈ between
    · exact hbetween hmem
    · exact ihRest hi hmem

theorem of_explores {pending seen after : List (Fin n)}
    (h : Graph.Explores m.targets pending seen after)
    (hback : ∀ i ∈ after, i ∉ seen → ∀ j ∈ m.targets i, m.graph.index j < m.graph.index i →
      after.idxOf j < after.idxOf i) : m.Climbs pending seen after := by
  induction h with
  | done seen => exact .done seen
  | skip hseen _ ih => exact .skip hseen (ih hback)
  | @visit k rest seen between after hk hbelow hrest ihBelow ihRest =>
    have hkBetween : k ∈ between := hbelow.mem_of_seen (by simp)
    refine .visit hk (fun j hj hlt => ?_) (ihBelow fun i hi hnew j hj hlt => ?_)
      (ihRest fun i hi hnew j hj hlt => ?_)
    · by_contra hjseen
      have hbefore := hback k (hrest.mem_of_seen hkBetween) hk j hj hlt
      have hjk : j ≠ k := fun heq => absurd hlt (heq ▸ Nat.lt_irrefl _)
      have hkidx : after.idxOf k = seen.length := by
        rw [hrest.idxOf_eq hkBetween, hbelow.idxOf_eq (by simp),
          List.idxOf_append_of_notMem hk]
        simp
      have hle : seen.length ≤ after.idxOf j :=
        (Graph.Explores.visit hk hbelow hrest).length_le_idxOf hjseen
      omega
    · have hnew' : i ∉ seen := fun hmem => hnew (by simp [hmem])
      have hbefore := hback i (hrest.mem_of_seen hi) hnew' j hj hlt
      have hj' : j ∈ between := hbelow.closed hi hnew hj
      rwa [hrest.idxOf_eq hi, hrest.idxOf_eq hj'] at hbefore
    · have hnew' : i ∉ seen := fun hmem => hnew (hbelow.mem_of_seen (by simp [hmem]))
      exact hback i hi hnew' j hj hlt

end Climbs

theorem entered_visit_succ (depth : Nat) (i : Fin n) :
    Mark.entered (m.visit (depth + 1) i) =
      i :: Mark.entered (m.follow (m.visit depth) i [] (m.targets i)) := by
  rw [follow_targets, visit]
  simp

theorem readsEntered_visit_succ (depth : Nat) (i : Fin n) (past : List (Fin n)) :
    Mark.ReadsEntered past (m.visit (depth + 1) i) ↔
      Mark.ReadsEntered (past ++ [i]) (m.follow (m.visit depth) i [] (m.targets i)) := by
  rw [follow_targets, visit]
  simp only [Mark.ReadsEntered, Mark.readsEntered_append]

theorem index_le_of_entered {depth : Nat} {i j : Fin n}
    (h : j ∈ Mark.entered (m.visit depth i)) : m.graph.index i ≤ m.graph.index j := by
  induction depth generalizing i with
  | zero => cases h
  | succ depth ih =>
    rcases mem_visit_succ.mp (Mark.mem_entered.mp h) with henter | hcreate | hfollow
    · cases henter
      exact Nat.le_refl _
    · cases hcreate
    · obtain ⟨k, _, hread | ⟨hlt, hvisit⟩⟩ := mem_follow hfollow
      · cases hread
      · exact Nat.le_of_lt (lt_of_lt_of_le hlt (ih (Mark.mem_entered.mpr hvisit)))

theorem read_of_le (visit : Fin n → List (Mark n)) {i j : Fin n} (before : List (Fin n))
    {targets : List (Fin n)} (hj : j ∈ targets) (hle : m.graph.index j ≤ m.graph.index i) :
    ∃ left right, m.follow visit i before targets = left ++ .read i j :: right := by
  obtain ⟨left, right, rfl⟩ := List.append_of_mem hj
  have hstep : m.step visit i (before ++ left) j = [.read i j] := by
    simp [step, visits, Nat.not_lt.mpr hle]
  rw [follow_append, follow, hstep]
  exact ⟨_, _, rfl⟩

/-- An earlier target of an object has been entered before the object, if it has been entered when
it is read: nothing that early is entered in between. -/
theorem mem_past_of_readsEntered {depth : Nat} {i j : Fin n} {past : List (Fin n)}
    (h : Mark.ReadsEntered (past ++ [i]) (m.follow (m.visit depth) i [] (m.targets i)))
    (hj : j ∈ m.targets i) (hlt : m.graph.index j < m.graph.index i) : j ∈ past := by
  obtain ⟨left, right, hsplit⟩ := read_of_le (m.visit depth) [] hj (Nat.le_of_lt hlt)
  have hread := h
  rw [hsplit] at hread
  rcases List.mem_append.mp (Mark.readsEntered_append.mp hread).2.1 with hpast | hentered
  · rcases List.mem_append.mp hpast with hpast | hself
    · exact hpast
    · rw [List.mem_singleton.mp hself] at hlt
      exact absurd hlt (Nat.lt_irrefl _)
  · have hmem : .enter j ∈ m.follow (m.visit depth) i [] (m.targets i) := by
      rw [hsplit]
      exact List.mem_append_left _ (Mark.mem_entered.mp hentered)
    obtain ⟨k, _, hread | ⟨hlt', hvisit⟩⟩ := mem_follow hmem
    · cases hread
    · have hle := index_le_of_entered (Mark.mem_entered.mpr hvisit)
      omega

theorem visit_seen (depth : Nat) {seen : List (Fin n)} {bound : Nat} {i : Fin n} (hi : i ∈ seen)
    (hbound : bound < m.graph.index i)
    (hclosed : ∀ k ∈ seen, bound < m.graph.index k → m.targets k ⊆ seen) :
    (∀ a b, .read a b ∈ m.visit depth i → b ∈ seen) ∧
      Mark.entered (m.visit depth i) ⊆ seen := by
  induction depth generalizing i with
  | zero => exact ⟨fun _ _ h => absurd h List.not_mem_nil, List.nil_subset _⟩
  | succ depth ih =>
    have htargets := hclosed i hi hbound
    refine ⟨fun a b hread => ?_, fun k hk => ?_⟩
    · rcases mem_visit_succ.mp hread with henter | hcreate | hfollow
      · cases henter
      · cases hcreate
      · obtain ⟨j, hj, heq | ⟨hlt, hvisit⟩⟩ := mem_follow hfollow
        · cases heq
          exact htargets hj
        · exact (ih (htargets hj) (hbound.trans hlt)).1 a b hvisit
    · rcases mem_visit_succ.mp (Mark.mem_entered.mp hk) with henter | hcreate | hfollow
      · cases henter
        exact hi
      · cases hcreate
      · obtain ⟨j, hj, heq | ⟨hlt, hvisit⟩⟩ := mem_follow hfollow
        · cases heq
        · exact (ih (htargets hj) (hbound.trans hlt)).2 (Mark.mem_entered.mpr hvisit)

/-- What has been seen while the targets of an object are obtained: everything later than the object
has been visited to the end, and nothing refers to an earlier object that has not been seen. -/
structure Settled (m : Merge n) (i : Fin n) (seen : List (Fin n)) : Prop where
  mem : i ∈ seen
  closed : ∀ k ∈ seen, m.graph.index i < m.graph.index k → m.targets k ⊆ seen
  backward : ∀ k ∈ seen, ∀ j ∈ m.targets k, m.graph.index j < m.graph.index k → j ∈ seen

namespace Settled

variable {i k : Fin n} {seen between : List (Fin n)} (h : m.Settled i seen)
  (hlt : m.graph.index i < m.graph.index k)
  (hearlier : ∀ j ∈ m.targets k, m.graph.index j < m.graph.index k → j ∈ seen)

include h

theorem index_lt_of_not_mem (hk : k ∈ m.targets i) (horder : k ∈ m.graph.order) (hnew : k ∉ seen) :
    m.graph.index i < m.graph.index k := by
  rcases Nat.lt_trichotomy (m.graph.index k) (m.graph.index i) with hlt | heq | hgt
  · exact absurd (h.backward i h.mem k hk hlt) hnew
  · exact absurd (Graph.index_inj horder heq ▸ h.mem) hnew
  · exact hgt

include hlt hearlier

theorem enter : m.Settled k (seen ++ [k]) := by
  refine ⟨by simp, fun x hx hkx => ?_, fun x hx j hj hjx => ?_⟩
  · rcases List.mem_append.mp hx with hx | hx
    · exact List.subset_append_of_subset_left _ (h.closed x hx (hlt.trans hkx))
    · rw [List.mem_singleton.mp hx] at hkx
      exact absurd hkx (Nat.lt_irrefl _)
  · rcases List.mem_append.mp hx with hx | hx
    · exact List.mem_append_left _ (h.backward x hx j hj hjx)
    · rw [List.mem_singleton.mp hx] at hj hjx
      exact List.mem_append_left _ (hearlier j hj hjx)

theorem leave (hbelow : Graph.Explores m.targets (m.targets k) (seen ++ [k]) between) :
    m.Settled i between := by
  refine ⟨hbelow.mem_of_seen (by simp [h.mem]), fun x hx hix => ?_, fun x hx j hj hjx => ?_⟩
  · by_cases hold : x ∈ seen
    · exact fun j hj => hbelow.mem_of_seen (by simp [h.closed x hold hix hj])
    · by_cases hxk : x = k
      · rw [hxk]
        exact hbelow.pending_subset
      · exact hbelow.closed hx (by simp [hold, hxk])
  · by_cases hold : x ∈ seen ++ [k]
    · exact hbelow.mem_of_seen ((h.enter hlt hearlier).backward x hold j hj hjx)
    · exact hbelow.closed hx hold hj

end Settled

theorem step_seen (depth : Nat) {i k : Fin n} {seen past before : List (Fin n)}
    (h : m.Settled i seen) (hk : k ∈ seen) (hpast : ∀ x, x ∈ past ↔ x ∈ seen) :
    Mark.ReadsEntered past (m.step (m.visit depth) i before k) ∧
      ∀ x, x ∈ past ++ Mark.entered (m.step (m.visit depth) i before k) ↔ x ∈ seen := by
  have hstep : Mark.ReadsEntered past (m.step (m.visit depth) i before k) ∧
      Mark.entered (m.step (m.visit depth) i before k) ⊆ seen := by
    unfold step
    split
    · rename_i hvisits
      simp only [visits, Bool.and_eq_true, decide_eq_true_eq] at hvisits
      obtain ⟨hreads, hentered⟩ := visit_seen depth hk hvisits.1 h.closed
      exact ⟨Mark.readsEntered_of_reads fun a b hread => (hpast b).mpr (hreads a b hread), hentered⟩
    · exact ⟨⟨(hpast k).mpr hk, trivial⟩, List.nil_subset _⟩
  refine ⟨hstep.1, fun x => ?_⟩
  rw [List.mem_append, hpast x]
  exact or_iff_left_of_imp fun hx => hstep.2 hx

theorem climbs_cons_of_mem {k : Fin n} {rest seen after : List (Fin n)} (hk : k ∈ seen) :
    m.Climbs (k :: rest) seen after ↔ m.Climbs rest seen after := by
  refine ⟨fun h => ?_, .skip hk⟩
  cases h with
  | skip _ hrest => exact hrest
  | visit hnew _ _ _ => exact absurd hk hnew

theorem climbs_cons_of_not_mem {k : Fin n} {rest seen between after : List (Fin n)} (hk : k ∉ seen)
    (hbelow : Graph.Explores m.targets (m.targets k) (seen ++ [k]) between) :
    m.Climbs (k :: rest) seen after ↔
      (∀ j ∈ m.targets k, m.graph.index j < m.graph.index k → j ∈ seen) ∧
        m.Climbs (m.targets k) (seen ++ [k]) between ∧ m.Climbs rest between after := by
  refine ⟨fun h => ?_, fun ⟨hearlier, hbelow', hrest⟩ => .visit hk hearlier hbelow' hrest⟩
  cases h with
  | skip hseen _ => exact absurd hseen hk
  | visit _ hearlier hbelow' hrest =>
    rw [hbelow.unique hbelow'.explores]
    exact ⟨hearlier, hbelow', hrest⟩

section Lawful

variable {keep : Bool} (hm : m.Lawful (m.graph.atoms keep))

include hm

/-- Obtaining targets reads only what has been entered exactly if the depth-first search of the
targets climbs, and then it enters what the search sees. -/
theorem readsEntered_follow_iff (depth : Nat) {i : Fin n} (hi : i ∈ m.representatives)
    (hdepth : m.graph.order.length ≤ depth + 1 + m.graph.index i)
    {before js seen after past : List (Fin n)} (hjs : js ⊆ m.targets i)
    (h : Graph.Explores m.targets js seen after) (hsettled : m.Settled i seen)
    (hbefore : before ⊆ seen) (hpast : ∀ x, x ∈ past ↔ x ∈ seen) :
    (Mark.ReadsEntered past (m.follow (m.visit depth) i before js) ↔ m.Climbs js seen after) ∧
      (m.Climbs js seen after →
        ∀ x, x ∈ past ++ Mark.entered (m.follow (m.visit depth) i before js) ↔ x ∈ after) := by
  -- the outer induction is on the depth of visits, the inner one on the targets of one object
  induction depth using Nat.strong_induction_on
    generalizing i before js seen after past with
  | _ depth ih =>
    induction js generalizing before seen past with
    | nil =>
      cases h
      refine ⟨⟨fun _ => .done _, fun _ => trivial⟩, fun _ x => ?_⟩
      simpa [follow, Mark.entered] using hpast x
    | cons k js ihRest =>
      obtain ⟨hk, hjs⟩ := List.cons_subset.mp hjs
      rw [follow, Mark.readsEntered_append, Mark.entered_append, ← List.append_assoc]
      cases h with
      | skip hkseen hrest =>
        obtain ⟨hreads, hpast'⟩ := step_seen depth hsettled hkseen hpast
        rw [climbs_cons_of_mem hkseen, and_iff_right hreads]
        refine ihRest hjs hrest hsettled ?_ hpast'
        simpa [hkseen] using hbefore
      | @visit _ _ _ between _ hknew hbelow hrest =>
        have hkmem := hm.targets_subset (mem_representatives.mp hi).1 hk
        have hkorder := (mem_representatives.mp hkmem).1
        have hkindex : m.graph.index k < m.graph.order.length :=
          List.idxOf_lt_length_of_mem hkorder
        have hlt := hsettled.index_lt_of_not_mem hk hkorder hknew
        have hstep : m.step (m.visit depth) i before k = m.visit depth k := by
          have hnew : k ∉ before := fun hmem => hknew (hbefore hmem)
          simp [step, visits, hlt, hnew]
        obtain ⟨d, rfl⟩ : ∃ d, depth = d + 1 := ⟨depth - 1, by omega⟩
        rw [hstep, readsEntered_visit_succ, entered_visit_succ,
          climbs_cons_of_not_mem hknew hbelow]
        by_cases hearlier : ∀ j ∈ m.targets k, m.graph.index j < m.graph.index k → j ∈ seen
        · have hpastBelow : ∀ x, x ∈ past ++ [k] ↔ x ∈ seen ++ [k] := by simp [hpast]
          obtain ⟨hiffBelow, hmemBelow⟩ := ih d (Nat.lt_succ_self d) hkmem (by omega)
            (List.Subset.refl _) hbelow (hsettled.enter hlt hearlier) (List.nil_subset _)
            hpastBelow
          have hbeforeBetween : before ++ [k] ⊆ between := fun x hx =>
            hbelow.mem_of_seen (by
              rcases List.mem_append.mp hx with hx | hx
              · exact List.mem_append_left _ (hbefore hx)
              · exact List.mem_append_right _ hx)
          have hafter := fun hc => ihRest hjs hrest (hsettled.leave hlt hearlier hbelow)
            hbeforeBetween (hmemBelow hc)
          rw [hiffBelow, and_iff_right hearlier, List.append_cons past k]
          exact ⟨and_congr_right fun hc => (hafter hc).1, fun hc => (hafter hc.1).2 hc.2⟩
        · refine ⟨⟨fun hreads => absurd (fun j hj hjk => ?_) hearlier,
            fun hc => absurd hc.1 hearlier⟩, fun hc => absurd hc.1 hearlier⟩
          exact (hpast j).mp (mem_past_of_readsEntered hreads.1 hj hjk)

theorem mem_buildOrder (hroot : m.graph.root ∈ m.representatives) {i : Fin n} :
    i ∈ m.buildOrder ↔ i ∈ m.representatives := by
  have hexplores := Graph.depthFirst_explores m.targets m.graph.root
  constructor
  · have hsub : ∀ {pending seen after : List (Fin n)},
        Graph.Explores m.targets pending seen after → pending ⊆ m.representatives →
          seen ⊆ m.representatives → after ⊆ m.representatives := by
      intro pending seen after h
      induction h with
      | done seen => exact fun _ hseen => hseen
      | skip _ _ ih => exact fun hpending => ih (List.cons_subset.mp hpending).2
      | visit _ _ _ ihBelow ihRest =>
        intro hpending hseen
        obtain ⟨hk, hrest⟩ := List.cons_subset.mp hpending
        refine ihRest hrest (ihBelow (hm.targets_subset (mem_representatives.mp hk).1) ?_)
        simpa [hk] using hseen
    exact fun hi => hsub hexplores (by simpa using hroot) (List.nil_subset _) hi
  · intro hi
    induction hindex : m.graph.index i using Nat.strong_induction_on generalizing i with
    | _ index ih =>
      by_cases heq : i = m.graph.root
      · exact hexplores.pending_subset (by simp [heq])
      · obtain ⟨u, hu, hui, hlt⟩ := hm.exists_earlier_referencer hi heq
        exact hexplores.closed (ih _ (hindex ▸ hlt) hu rfl) List.not_mem_nil hui

theorem settled_root : m.Settled m.graph.root [m.graph.root] := by
  have hindex := hm.ordered.index_root
  refine ⟨by simp, fun k hk hlt => ?_, fun k hk j _ hlt => ?_⟩
  · rw [List.mem_singleton.mp hk] at hlt
    omega
  · rw [List.mem_singleton.mp hk] at hlt
    omega

/-- Visiting the root reads only what has been entered exactly if the depth-first order of the merged
graph has each object after the earlier objects to which it refers. -/
theorem readsEntered_visit_root_iff (hroot : m.graph.root ∈ m.representatives) {depth : Nat}
    (hdepth : m.graph.order.length ≤ depth) :
    Mark.ReadsEntered [] (m.visit depth m.graph.root) ↔ m.KeepsOrder := by
  have hindex := hm.ordered.index_root
  have hpos : 0 < m.graph.order.length := List.length_pos_of_mem hm.ordered.root_mem
  obtain ⟨d, rfl⟩ : ∃ d, depth = d + 1 := ⟨depth - 1, by omega⟩
  have hexplores : Graph.Explores m.targets (m.targets m.graph.root) [m.graph.root]
      m.buildOrder := by
    have h := Graph.depthFirst_explores m.targets m.graph.root
    cases h with
    | skip hseen _ => exact absurd hseen List.not_mem_nil
    | visit _ hbelow hrest =>
      cases hrest
      exact hbelow
  rw [readsEntered_visit_succ, List.nil_append,
    (readsEntered_follow_iff hm d hroot (by omega) (List.Subset.refl _) hexplores (settled_root hm)
      (List.nil_subset _) fun _ => Iff.rfl).1]
  constructor
  · intro hclimbs i hi j hj hlt
    refine hclimbs.idxOf_lt ((mem_buildOrder hm hroot).mpr hi) ?_ hj hlt
    intro hmem
    rw [List.mem_singleton.mp hmem, hindex] at hlt
    exact absurd hlt (Nat.not_lt_zero _)
  · intro horder
    exact Climbs.of_explores hexplores fun i hi _ j hj hlt =>
      horder i ((mem_buildOrder hm hroot).mp hi) j hj hlt

end Lawful

end Merge

end SceneCompiler
