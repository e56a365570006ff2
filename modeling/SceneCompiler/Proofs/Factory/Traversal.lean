import Mathlib.Data.List.Basic
import SceneCompiler.Factory.Resolution

/-!
# Traversing a factory

Answering the requests of a factory asks for each reference once, in order, and changes nothing
else.  Both are said for any lawful monad: the references of the answered factory are the answers,
and a function of the answers may be applied before or after.
-/

namespace SceneCompiler

variable {ρ σ τ : Type}

def Operand.map (h : ρ → σ) (a : Operand ρ) : Operand σ :=
  Id.run (a.traverse fun r => pure (h r))

def Statement.map (h : ρ → σ) (s : Statement ρ) : Statement σ :=
  Id.run (s.traverse fun r => pure (h r))

def Creation.map (h : ρ → σ) (c : Creation ρ) : Creation σ :=
  Id.run (c.traverse fun r => pure (h r))

def Factory.map (h : ρ → σ) (f : Factory ρ) : Factory σ :=
  ⟨f.creation.map h, f.bare, f.statements.map (Statement.map h)⟩

section Lawful

variable {m : Type → Type} [Monad m] [LawfulMonad m]

theorem Operand.references_traverse (f : ρ → m σ) (a : Operand ρ) :
    Operand.references <$> a.traverse f = a.references.mapM f := by
  cases a <;> simp [Operand.traverse, Operand.references]

theorem flatMap_mapM {α β : Type} {f : ρ → m σ} {t : α → m β} {before : α → List ρ}
    {after : β → List σ} (h : ∀ a, after <$> t a = (before a).mapM f) (as : List α) :
    List.flatMap after <$> as.mapM t = (as.flatMap before).mapM f := by
  induction as with
  | nil => simp
  | cons a as ih =>
    simp only [List.mapM_cons, List.flatMap_cons, List.mapM_append, ← h, ← ih]
    simp

theorem Statement.references_traverse (f : ρ → m σ) (s : Statement ρ) :
    Statement.references <$> s.traverse f = s.references.mapM f := by
  cases s <;>
    simp [Statement.traverse, Statement.references, ← Operand.references_traverse]

theorem Creation.references_traverse (f : ρ → m σ) (c : Creation ρ) :
    Creation.references <$> c.traverse f = c.references.mapM f := by
  cases c with
  | call method arguments =>
    have h := flatMap_mapM (Operand.references_traverse f) arguments
    simp only [Creation.traverse, Creation.references, ← h]
    simp [Creation.references]
  | _ => simp [Creation.traverse, Creation.references]

theorem Factory.references_traverse (f : ρ → m σ) (factory : Factory ρ) :
    (fun g => (g.creation.references, g.statements.flatMap Statement.references)) <$>
        factory.traverse f =
      (do
        let creation ← factory.creation.references.mapM f
        let statements ← (factory.statements.flatMap Statement.references).mapM f
        return (creation, statements)) := by
  have h := flatMap_mapM (Statement.references_traverse f) factory.statements
  simp only [Factory.traverse, ← h, ← Creation.references_traverse]
  simp

theorem Factory.references_traverse_append (f : ρ → m σ) (factory : Factory ρ) :
    Factory.references <$> factory.traverse f = factory.references.mapM f := by
  have h := congrArg (Functor.map fun parts : List σ × List σ => parts.1 ++ parts.2)
    (Factory.references_traverse f factory)
  simp only [Functor.map_map] at h
  rw [Factory.references, List.mapM_append]
  refine h.trans ?_
  simp

theorem Operand.traverse_map (h : σ → τ) (f : ρ → m σ) (a : Operand ρ) :
    a.traverse (fun r => h <$> f r) = Operand.map h <$> a.traverse f := by
  cases a <;> simp [Operand.traverse, Operand.map]

theorem mapM_map {α β γ : Type} {t : α → m β} {u : α → m γ} {g : β → γ}
    (h : ∀ a, u a = g <$> t a) (as : List α) : as.mapM u = List.map g <$> as.mapM t := by
  induction as with
  | nil => simp
  | cons a as ih =>
    simp only [List.mapM_cons, ih, h]
    simp

theorem Statement.traverse_map (h : σ → τ) (f : ρ → m σ) (s : Statement ρ) :
    s.traverse (fun r => h <$> f r) = Statement.map h <$> s.traverse f := by
  cases s <;> simp [Statement.traverse, Statement.map, Operand.traverse_map, Operand.map]

theorem Creation.traverse_map (h : σ → τ) (f : ρ → m σ) (c : Creation ρ) :
    c.traverse (fun r => h <$> f r) = Creation.map h <$> c.traverse f := by
  cases c with
  | call method arguments =>
    rw [Creation.traverse, Creation.traverse, mapM_map (Operand.traverse_map h f)]
    simp only [Creation.map, Creation.traverse, Functor.map_map, bind_pure_comp, Id.run_map,
      List.idRun_mapM]
    rfl
  | _ => simp [Creation.traverse, Creation.map]

theorem Factory.traverse_map (h : σ → τ) (f : ρ → m σ) (factory : Factory ρ) :
    factory.traverse (fun r => h <$> f r) = Factory.map h <$> factory.traverse f := by
  rw [Factory.traverse, Factory.traverse, Creation.traverse_map,
    mapM_map (Statement.traverse_map h f)]
  simp [Factory.map]

end Lawful

section Answered

variable {ς ε : Type} {f : ρ → StateT ς (Except ε) σ} {back : σ → ρ}

theorem run_bind_eq_ok {α β : Type} {x : StateT ς (Except ε) α} {g : α → StateT ς (Except ε) β}
    {s : ς} {result : β × ς} :
    (x >>= g).run s = .ok result ↔
      ∃ a t, x.run s = .ok (a, t) ∧ (g a).run t = .ok result := by
  rw [StateT.run_bind]
  cases hx : x.run s with
  | error e => simp [bind, Except.bind]
  | ok next => exact ⟨fun h => ⟨next.1, next.2, rfl, h⟩, fun ⟨_, _, h, hg⟩ => by cases h; exact hg⟩

theorem run_bind_of_ok {α β : Type} {x : StateT ς (Except ε) α} (g : α → StateT ς (Except ε) β)
    {s t : ς} {a : α} (h : x.run s = .ok (a, t)) : (x >>= g).run s = (g a).run t := by
  rw [StateT.run_bind, h]
  rfl

theorem run_bind_of_error {α β : Type} {x : StateT ς (Except ε) α}
    (g : α → StateT ς (Except ε) β) {s : ς} {e : ε} (h : x.run s = .error e) :
    (x >>= g).run s = .error e := by
  rw [StateT.run_bind, h]
  rfl

theorem run_pure_eq_ok {α : Type} {a : α} {s : ς} {result : α × ς} :
    (pure a : StateT ς (Except ε) α).run s = .ok result ↔ (a, s) = result := by
  rw [StateT.run_pure]
  exact ⟨Except.ok.inj, congrArg _⟩

theorem Operand.map_traverse (hf : ∀ r s x t, (f r).run s = .ok (x, t) → back x = r)
    {a : Operand ρ} {b : Operand σ} {s t : ς} (h : (a.traverse f).run s = .ok (b, t)) :
    b.map back = a := by
  cases a with
  | object r =>
    obtain ⟨x, u, hx, hb⟩ := run_bind_eq_ok.mp h
    cases run_pure_eq_ok.mp hb
    simp [Operand.map, Operand.traverse, hf _ _ _ _ hx]
  | _ =>
    cases run_pure_eq_ok.mp h
    rfl

theorem Statement.map_traverse (hf : ∀ r s x t, (f r).run s = .ok (x, t) → back x = r)
    {a : Statement ρ} {b : Statement σ} {s t : ς} (h : (a.traverse f).run s = .ok (b, t)) :
    b.map back = a := by
  cases a with
  | assign _ _ value | add _ value | setParameter _ _ value | startAnimation _ _ value =>
    obtain ⟨x, u, hx, hb⟩ := run_bind_eq_ok.mp h
    cases run_pure_eq_ok.mp hb
    simp [Statement.map, Statement.traverse, ← Operand.map_traverse hf hx, Operand.map]
  | insertKeyFrame progress value easing =>
    obtain ⟨x, u, hx, hrest⟩ := run_bind_eq_ok.mp h
    obtain ⟨y, v, hy, hb⟩ := run_bind_eq_ok.mp hrest
    cases run_pure_eq_ok.mp hb
    simp [Statement.map, Statement.traverse, ← Operand.map_traverse hf hx, Operand.map,
      hf _ _ _ _ hy]
  | insertExpressionKeyFrame progress expression easing =>
    obtain ⟨x, u, hx, hb⟩ := run_bind_eq_ok.mp h
    cases run_pure_eq_ok.mp hb
    simp [Statement.map, Statement.traverse, hf _ _ _ _ hx]
  | _ =>
    cases run_pure_eq_ok.mp h
    rfl

theorem Factory.map_traverse (hf : ∀ r s x t, (f r).run s = .ok (x, t) → back x = r)
    {a : Factory ρ} {b : Factory σ} {s t : ς} (h : (a.traverse f).run s = .ok (b, t)) :
    b.statements.map (Statement.map back) = a.statements := by
  have hlist : ∀ (as : List (Statement ρ)) (bs : List (Statement σ)) (s t : ς),
      (as.mapM (Statement.traverse f)).run s = .ok (bs, t) →
      bs.map (Statement.map back) = as := by
    intro as
    induction as with
    | nil =>
      intro bs s t h
      rw [List.mapM_nil] at h
      cases run_pure_eq_ok.mp h
      rfl
    | cons a as ih =>
      intro bs s t h
      rw [List.mapM_cons] at h
      obtain ⟨x, u, hx, hrest⟩ := run_bind_eq_ok.mp h
      obtain ⟨ys, v, hys, hb⟩ := run_bind_eq_ok.mp hrest
      cases run_pure_eq_ok.mp hb
      rw [List.map_cons, Statement.map_traverse hf hx, ih _ _ _ hys]
  obtain ⟨creation, u, _, hrest⟩ := run_bind_eq_ok.mp h
  obtain ⟨statements, v, hstatements, hb⟩ := run_bind_eq_ok.mp hrest
  cases run_pure_eq_ok.mp hb
  exact hlist _ _ _ _ hstatements

end Answered

end SceneCompiler
