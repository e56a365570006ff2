import SceneCompiler.Proofs.Merge.Transient

/-!
# Visits

What the constructor does, seen on the merged graph.  Visiting an object obtains its targets in
order: one that comes later is visited when it is first met, any other is read.  Here transient
animations and paths written inline are visited like any other object.
-/

namespace SceneCompiler

theorem split_append {α : Type} {left right before after : List α} {a : α}
    (h : left ++ right = before ++ a :: after) :
    (∃ rest, left = before ++ a :: rest) ∨
      ∃ middle, before = left ++ middle ∧ right = middle ++ a :: after := by
  rcases List.append_eq_append_iff.mp h with ⟨middle, hbefore, hright⟩ | ⟨middle, hleft, hafter⟩
  · exact .inr ⟨middle, hbefore, hright⟩
  · cases middle with
    | nil => exact .inr ⟨[], by simpa using hleft.symm, by simpa using hafter.symm⟩
    | cons first middle =>
      cases hafter
      exact .inl ⟨middle, hleft⟩

inductive Mark (n : Nat) where
  | enter (i : Fin n)
  | create (i : Fin n)
  | read (i j : Fin n)
deriving DecidableEq, Repr

namespace Merge

variable {n : Nat} (m : Merge n)

def visits (i : Fin n) (before : List (Fin n)) (j : Fin n) : Bool :=
  decide (m.graph.index i < m.graph.index j) && !before.contains j

def step (visit : Fin n → List (Mark n)) (i : Fin n) (before : List (Fin n)) (j : Fin n) :
    List (Mark n) :=
  if m.visits i before j then visit j else [.read i j]

def follow (visit : Fin n → List (Mark n)) (i : Fin n) :
    (before targets : List (Fin n)) → List (Mark n)
  | _, [] => []
  | before, j :: rest => m.step visit i before j ++ follow visit i (before ++ [j]) rest

def visit : (depth : Nat) → Fin n → List (Mark n)
  | 0, _ => []
  | depth + 1, i =>
    let needed := (m.targets i).take (m.object i).arity
    .enter i :: (m.follow (visit depth) i [] needed ++
      .create i :: m.follow (visit depth) i needed ((m.targets i).drop (m.object i).arity))

variable {m} {visit : Fin n → List (Mark n)} {i : Fin n}

theorem follow_append {v : Fin n → List (Mark n)} (before left right : List (Fin n)) :
    m.follow v i before (left ++ right) =
      m.follow v i before left ++ m.follow v i (before ++ left) right := by
  induction left generalizing before with
  | nil => simp [follow]
  | cons j left ih => simp [follow, ih]

theorem follow_targets (visit : Fin n → List (Mark n)) (i : Fin n) :
    m.follow visit i [] (m.targets i) =
      m.follow visit i [] ((m.targets i).take (m.object i).arity) ++
        m.follow visit i ((m.targets i).take (m.object i).arity)
          ((m.targets i).drop (m.object i).arity) := by
  have happend := follow_append (m := m) (i := i) (v := visit) []
    ((m.targets i).take (m.object i).arity) ((m.targets i).drop (m.object i).arity)
  rwa [List.take_append_drop, List.nil_append] at happend

theorem mem_visit_succ {depth : Nat} {mark : Mark n} :
    mark ∈ m.visit (depth + 1) i ↔
      mark = .enter i ∨ mark = .create i ∨ mark ∈ m.follow (m.visit depth) i [] (m.targets i) := by
  rw [follow_targets, visit]
  simp only [List.mem_cons, List.mem_append]
  tauto

theorem mem_follow {before targets : List (Fin n)} {mark : Mark n}
    (h : mark ∈ m.follow visit i before targets) :
    ∃ j ∈ targets, mark = .read i j ∨ m.graph.index i < m.graph.index j ∧ mark ∈ visit j := by
  induction targets generalizing before with
  | nil => cases h
  | cons j targets ih =>
    rcases List.mem_append.mp h with hstep | hrest
    · refine ⟨j, List.mem_cons_self, ?_⟩
      unfold step at hstep
      split at hstep
      · rename_i hvisits
        simp only [visits, Bool.and_eq_true, decide_eq_true_eq] at hvisits
        exact .inr ⟨hvisits.1, hstep⟩
      · exact .inl (List.mem_singleton.mp hstep)
    · obtain ⟨k, hk, hmark⟩ := ih hrest
      exact ⟨k, List.mem_cons_of_mem _ hk, hmark⟩

end Merge

end SceneCompiler
