import SceneCompiler.Proofs.Constructor.BuildOrder

/-!
# Reading what has been created

An object is created when what it is created from has been obtained.  That takes only outlines, and
outlines do not refer back to the object, so while the root is visited an object that has been
entered is never read before it has been created.
-/

namespace SceneCompiler

variable {n : Nat}

namespace Mark

def Opened (marks : List (Mark n)) : Prop :=
  ∀ left b right, marks = left ++ .create b :: right → .enter b ∈ left

theorem Opened.append {left right : List (Mark n)} (hleft : Opened left) (hright : Opened right) :
    Opened (left ++ right) := by
  intro before b after hsplit
  rcases split_append hsplit with ⟨rest, hrest⟩ | ⟨middle, rfl, hrest⟩
  · exact hleft before b rest hrest
  · exact List.mem_append_right _ (hright middle b after hrest)

theorem Opened.around {marks : List (Mark n)} (i : Fin n) (h : Opened marks) :
    Opened (.enter i :: marks ++ [.create i]) := by
  intro before b after hsplit
  rcases split_append hsplit with ⟨rest, hrest⟩ | ⟨middle, rfl, hrest⟩
  · cases before with
    | nil => cases hrest
    | cons first before =>
      exact List.mem_cons_of_mem _ (h before b rest (List.cons.inj hrest).2)
  · have hmem : .create b ∈ [Mark.create i] := by
      rw [hrest]
      simp
    cases List.mem_singleton.mp hmem
    simp

def Finished (marks : List (Mark n)) : Prop :=
  ∀ b, .enter b ∈ marks → .create b ∈ marks

def Prompt (marks : List (Mark n)) : Prop :=
  ∀ left a b right, marks = left ++ .read a b :: right → .enter b ∈ left → .create b ∈ left

theorem Finished.append {left right : List (Mark n)} (hleft : Finished left)
    (hright : Finished right) : Finished (left ++ right) := by
  intro b hb
  rcases List.mem_append.mp hb with hb | hb
  · exact List.mem_append_left _ (hleft b hb)
  · exact List.mem_append_right _ (hright b hb)

theorem Prompt.append {left right : List (Mark n)} (hleft : Prompt left)
    (hfinished : Finished left) (hright : Prompt right) : Prompt (left ++ right) := by
  intro before a b after hsplit hb
  rcases split_append hsplit with ⟨rest, hrest⟩ | ⟨middle, rfl, hrest⟩
  · exact hleft before a b rest hrest hb
  · rcases List.mem_append.mp hb with hb | hb
    · exact List.mem_append_left _ (hfinished b hb)
    · exact List.mem_append_right _ (hright middle a b after hrest hb)

theorem Finished.around {marks : List (Mark n)} (i : Fin n) (h : Finished marks) :
    Finished (.enter i :: marks ++ [.create i]) := by
  intro b hb
  rcases List.mem_append.mp hb with hb | hb
  · rcases List.mem_cons.mp hb with heq | hb
    · cases heq
      simp
    · exact List.mem_append_left _ (List.mem_cons_of_mem _ (h b hb))
  · cases List.mem_singleton.mp hb

theorem Prompt.around {marks : List (Mark n)} {i : Fin n} (h : Prompt marks)
    (hnot : ∀ a, .read a i ∉ marks) : Prompt (.enter i :: marks ++ [.create i]) := by
  intro before a b after hsplit hb
  rcases split_append hsplit with ⟨rest, hrest⟩ | ⟨middle, rfl, hrest⟩
  · cases before with
    | nil => cases hrest
    | cons first before =>
      obtain ⟨rfl, hmarks⟩ := List.cons.inj hrest
      rcases List.mem_cons.mp hb with heq | hb
      · cases heq
        exact absurd (by simp [hmarks]) (hnot a)
      · exact List.mem_cons_of_mem _ (h before a b rest hmarks hb)
  · have hmem : .read a b ∈ [Mark.create i] := by
      rw [hrest]
      simp
    cases List.mem_singleton.mp hmem

end Mark

namespace Merge

variable {m : Merge n}

section Follow

variable {visit : Fin n → List (Mark n)} (hfinished : ∀ j, Mark.Finished (visit j)) {i : Fin n}
  {before targets : List (Fin n)}

include hfinished

theorem finished_step (j : Fin n) : Mark.Finished (m.step visit i before j) := by
  unfold step
  split
  · exact hfinished j
  · intro b hb
    cases List.mem_singleton.mp hb

theorem finished_follow : Mark.Finished (m.follow visit i before targets) := by
  induction targets generalizing before with
  | nil => exact fun _ hb => absurd hb List.not_mem_nil
  | cons j targets ih => exact (finished_step hfinished j).append ih

theorem prompt_follow (hprompt : ∀ j ∈ targets, Mark.Prompt (visit j)) :
    Mark.Prompt (m.follow visit i before targets) := by
  induction targets generalizing before with
  | nil =>
    intro left a b right hsplit
    simp [follow] at hsplit
  | cons j targets ih =>
    refine Mark.Prompt.append ?_ (finished_step hfinished j)
      (ih fun k hk => hprompt k (List.mem_cons_of_mem _ hk))
    unfold step
    split
    · exact hprompt j List.mem_cons_self
    · intro left a b right hsplit hb
      cases left with
      | nil => cases hb
      | cons first left => simp at hsplit

end Follow

theorem visit_succ_eq (depth : Nat) (i : Fin n) :
    m.visit (depth + 1) i =
      (.enter i :: m.follow (m.visit depth) i [] ((m.targets i).take (m.object i).arity) ++
        [.create i]) ++ m.follow (m.visit depth) i ((m.targets i).take (m.object i).arity)
          ((m.targets i).drop (m.object i).arity) := by
  simp [visit]

theorem finished_visit (depth : Nat) (i : Fin n) : Mark.Finished (m.visit depth i) := by
  induction depth generalizing i with
  | zero => exact fun _ hb => absurd hb List.not_mem_nil
  | succ depth ih =>
    rw [visit_succ_eq]
    exact ((finished_follow ih).around i).append (finished_follow ih)

theorem opened_visit (depth : Nat) (i : Fin n) : Mark.Opened (m.visit depth i) := by
  have hnil : Mark.Opened ([] : List (Mark n)) := fun left b right h => by simp at h
  induction depth generalizing i with
  | zero => exact hnil
  | succ depth ih =>
    have hfollow : ∀ before targets, Mark.Opened (m.follow (m.visit depth) i before targets) := by
      intro before targets
      induction targets generalizing before with
      | nil => exact hnil
      | cons j targets ihRest =>
        refine Mark.Opened.append ?_ (ihRest _)
        unfold step
        split
        · exact ih j
        · intro left b right hsplit
          cases left <;> simp at hsplit
    rw [visit_succ_eq]
    exact ((hfollow _ _).around i).append (hfollow _ _)

section Kinded

variable {keep : Bool} (hm : m.Lawful (m.graph.atoms keep)) (hk : m.graph.Kinded)

include hm

theorem read_of_isOutline {rank : Fin n → Nat}
    (hrank : ∀ r ∈ m.representatives, (m.object r).isOutline = true →
      ∀ j ∈ m.targets r, (m.object j).isOutline = true ∧ rank j < rank r)
    (depth : Nat) {i a b : Fin n} (hi : i ∈ m.representatives)
    (houtline : (m.object i).isOutline = true) (h : .read a b ∈ m.visit depth i) :
    (m.object b).isOutline = true ∧ rank b < rank i := by
  induction depth generalizing i with
  | zero => cases h
  | succ depth ih =>
    rcases mem_visit_succ.mp h with henter | hcreate | hfollow
    · cases henter
    · cases hcreate
    · obtain ⟨j, hj, heq | ⟨_, hvisit⟩⟩ := mem_follow hfollow
      · rw [(Mark.read.inj heq).2]
        exact hrank i hi houtline j hj
      · obtain ⟨houtline', hlt⟩ := hrank i hi houtline j hj
        have hjmem := hm.targets_subset (mem_representatives.mp hi).1 hj
        obtain ⟨hb, hlt'⟩ := ih hjmem houtline' hvisit
        exact ⟨hb, hlt'.trans hlt⟩

include hk

theorem prompt_visit (depth : Nat) {i : Fin n} (hi : i ∈ m.representatives) :
    Mark.Prompt (m.visit depth i) := by
  induction depth generalizing i with
  | zero =>
    intro left a b right hsplit
    simp [visit] at hsplit
  | succ depth ih =>
    have hmem := (mem_representatives.mp hi).1
    have hprompt : ∀ j ∈ m.targets i, Mark.Prompt (m.visit depth j) := fun j hj =>
      ih (hm.targets_subset hmem hj)
    rw [visit_succ_eq]
    refine Mark.Prompt.append (Mark.Prompt.around ?_ fun a hread => ?_)
      ((finished_follow (finished_visit depth)).around i) ?_
    · exact prompt_follow (finished_visit depth) fun j hj => hprompt j (List.mem_of_mem_take hj)
    · obtain ⟨rank, hrank⟩ := exists_rank hm hk
      obtain ⟨j, hj, hmark⟩ := mem_follow hread
      have houtline := isOutline_of_mem_take_targets hm hk hmem hj
      have hj := List.mem_of_mem_take hj
      rcases hmark with heq | ⟨_, hvisit⟩
      · have hij := (Mark.read.inj heq).2
        rw [← hij] at hj houtline
        exact absurd (hrank i hi houtline i hj).2 (Nat.lt_irrefl _)
      · obtain ⟨houtline', hlt⟩ :=
          read_of_isOutline hm hrank depth (hm.targets_subset hmem hj) houtline hvisit
        exact absurd (hrank i hi houtline' j hj).2 (Nat.lt_asymm hlt)
    · exact prompt_follow (finished_visit depth) fun j hj => hprompt j (List.mem_of_mem_drop hj)

omit hk in
theorem mem_targets_of_read (depth : Nat) {i a b : Fin n} (hi : i ∈ m.representatives)
    (h : .read a b ∈ m.visit depth i) : a ∈ m.representatives ∧ b ∈ m.targets a := by
  induction depth generalizing i with
  | zero => cases h
  | succ depth ih =>
    rcases mem_visit_succ.mp h with henter | hcreate | hfollow
    · cases henter
    · cases hcreate
    · obtain ⟨j, hj, heq | ⟨_, hvisit⟩⟩ := mem_follow hfollow
      · obtain ⟨rfl, rfl⟩ := Mark.read.inj heq
        exact ⟨hi, hj⟩
      · exact ih (hm.targets_subset (mem_representatives.mp hi).1 hj) hvisit

omit hm hk in
theorem enter_mem_of_visit {depth : Nat} {i a b : Fin n} {left right : List (Mark n)}
    (h : m.visit depth i = left ++ .read a b :: right) : .enter i ∈ left := by
  cases depth with
  | zero => simp [visit] at h
  | succ depth =>
    cases left with
    | nil => cases h
    | cons first left =>
      rw [← (List.cons.inj h).1]
      exact List.mem_cons_self

def HandsEntered (m : Merge n) (i : Fin n) (marks : List (Mark n)) : Prop :=
  ∀ left e j right, marks = left ++ .read e j :: right → m.isAtHand e j = true →
    e = i ∨ j = i ∨ .enter j ∈ left

omit hm hk in
theorem HandsEntered.append {i : Fin n} {left right : List (Mark n)}
    (hleft : m.HandsEntered i left) (hright : m.HandsEntered i right) :
    m.HandsEntered i (left ++ right) := by
  intro before e j after hsplit hhand
  rcases split_append hsplit with ⟨rest, hrest⟩ | ⟨middle, rfl, hrest⟩
  · exact hleft before e j rest hrest hhand
  · rcases hright middle e j after hrest hhand with he | hj | henter
    · exact .inl he
    · exact .inr (.inl hj)
    · exact .inr (.inr (List.mem_append_right _ henter))

omit hm hk in
theorem HandsEntered.of_forall {i : Fin n} {marks : List (Mark n)}
    (h : ∀ e j, .read e j ∈ marks → e = i) : m.HandsEntered i marks := by
  rintro left e j right rfl _
  exact .inl (h e j (by simp))

omit hm hk in
theorem handsEntered_follow {visit : Fin n → List (Mark n)} {i : Fin n}
    {before targets : List (Fin n)} (h : ∀ j ∈ targets, m.HandsEntered i (visit j)) :
    m.HandsEntered i (m.follow visit i before targets) := by
  induction targets generalizing before with
  | nil => exact .of_forall fun _ _ hread => absurd hread List.not_mem_nil
  | cons j targets ih =>
    refine HandsEntered.append ?_ (ih fun k hk => h k (List.mem_cons_of_mem _ hk))
    unfold step
    split
    · exact h j List.mem_cons_self
    · exact .of_forall fun e k hread => (Mark.read.inj (List.mem_singleton.mp hread)).1

theorem handsEntered_visit (hparts : m.PartsRetained) (depth : Nat) {i : Fin n}
    (hi : i ∈ m.representatives) : m.HandsEntered i (m.visit depth i) := by
  induction depth generalizing i with
  | zero => exact .of_forall fun _ _ hread => absurd hread List.not_mem_nil
  | succ depth ih =>
    have hmem := (mem_representatives.mp hi).1
    -- what a target has at hand is the object that starts it, and that is `i`
    have htargets : ∀ k ∈ m.targets i, m.HandsEntered i (m.visit depth k) := by
      intro k hk' left e j right hsplit hhand
      have hkmem := hm.targets_subset hmem hk'
      rcases ih hkmem left e j right hsplit hhand with rfl | rfl | henter
      · have hread : .read e j ∈ m.visit depth e := by simp [hsplit]
        have hj := (mem_targets_of_read hm depth hkmem hread).2
        have hjmem := hm.targets_subset (mem_representatives.mp hkmem).1 hj
        exact .inr (.inl (starts_of_isAtHand hm hk hparts hkmem hjmem hi hhand hk'))
      · exact .inr (.inr (enter_mem_of_visit hsplit))
      · exact .inr (.inr henter)
    rw [visit_succ_eq]
    refine HandsEntered.append (HandsEntered.append ?_ ?_) (handsEntered_follow fun j hj =>
      htargets j (List.mem_of_mem_drop hj))
    · exact (HandsEntered.of_forall (by simp) : m.HandsEntered i [.enter i]).append
        (handsEntered_follow fun j hj => htargets j (List.mem_of_mem_take hj))
    · exact .of_forall (by simp)

/-- Visiting the root reads only what has been created, or is at hand, exactly if the depth-first
order of the merged graph has each object after the earlier objects to which it refers. -/
theorem reads_created_iff (hparts : m.PartsRetained) {depth : Nat}
    (hdepth : m.graph.order.length ≤ depth) :
    (∀ left a b right, m.visit depth m.graph.root = left ++ .read a b :: right →
      m.isAtHand a b = false → .create b ∈ left) ↔ m.KeepsOrder := by
  have hroot := root_mem_representatives hm hk
  rw [← readsEntered_visit_root_iff hm hroot hdepth, Mark.readsEntered_iff]
  constructor
  · intro h left a b right hsplit
    rw [List.nil_append, Mark.mem_entered]
    cases hhand : m.isAtHand a b with
    | true =>
      rcases handsEntered_visit hm hk hparts depth hroot left a b right hsplit hhand with
        rfl | rfl | henter
      · simp only [isAtHand, Bool.and_eq_true] at hhand
        exact absurd rfl (not_expression_root hk (transient_spec hhand.1).1)
      · exact enter_mem_of_visit hsplit
      · exact henter
    | false =>
      obtain ⟨before, after, rfl⟩ := List.append_of_mem (h left a b right hsplit hhand)
      rw [List.append_assoc, List.cons_append] at hsplit
      exact List.mem_append_left _ (opened_visit depth m.graph.root _ _ _ hsplit)
  · intro h left a b right hsplit _
    have henter := h left a b right hsplit
    rw [List.nil_append, Mark.mem_entered] at henter
    exact prompt_visit hm hk depth hroot left a b right hsplit henter

end Kinded

end Merge

end SceneCompiler
