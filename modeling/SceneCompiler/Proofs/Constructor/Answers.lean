import SceneCompiler.Proofs.Constructor.Replies
import SceneCompiler.Proofs.Factory.Renaming

/-!
# What answers leave as it is

The factories of a program are those of its plan, apart from the answers, and every answer says how
the callee is obtained by the caller.
-/

namespace SceneCompiler

section Answered

variable {ς ε ρ σ : Type}

theorem exists_of_mem_mapM {α β : Type} {t : α → StateT ς (Except ε) β} {as : List α} {bs : List β}
    {s u : ς} (h : (as.mapM t).run s = .ok (bs, u)) {b : β} (hb : b ∈ bs) :
    ∃ a ∈ as, ∃ s' u', (t a).run s' = .ok (b, u') := by
  induction as generalizing s bs with
  | nil =>
    rw [List.mapM_nil] at h
    cases run_pure_eq_ok.mp h
    cases hb
  | cons a as ih =>
    rw [List.mapM_cons] at h
    obtain ⟨x, s', hx, hrest⟩ := run_bind_eq_ok.mp h
    obtain ⟨xs, u', hxs, hpure⟩ := run_bind_eq_ok.mp hrest
    cases run_pure_eq_ok.mp hpure
    rcases List.mem_cons.mp hb with rfl | hb
    · exact ⟨a, List.mem_cons_self, s, s', hx⟩
    · obtain ⟨a', ha', hrun⟩ := ih hxs hb
      exact ⟨a', List.mem_cons_of_mem a ha', hrun⟩

theorem map_of_mapM {α β : Type} {t : α → StateT ς (Except ε) β} {back : β → α}
    (hback : ∀ a s b u, (t a).run s = .ok (b, u) → back b = a) {as : List α} {bs : List β}
    {s u : ς} (h : (as.mapM t).run s = .ok (bs, u)) : bs.map back = as := by
  induction as generalizing s bs with
  | nil =>
    rw [List.mapM_nil] at h
    cases run_pure_eq_ok.mp h
    rfl
  | cons a as ih =>
    rw [List.mapM_cons] at h
    obtain ⟨x, s', hx, hrest⟩ := run_bind_eq_ok.mp h
    obtain ⟨xs, u', hxs, hpure⟩ := run_bind_eq_ok.mp hrest
    cases run_pure_eq_ok.mp hpure
    rw [List.map_cons, hback _ _ _ _ hx, ih hxs]

variable {f : ρ → StateT ς (Except ε) σ} {back : σ → ρ}

theorem Creation.map_traverse (hf : ∀ r s x t, (f r).run s = .ok (x, t) → back x = r)
    {a : Creation ρ} {b : Creation σ} {s t : ς} (h : (a.traverse f).run s = .ok (b, t)) :
    b.map back = a := by
  cases a with
  | call method arguments =>
    obtain ⟨xs, u, hxs, hb⟩ := run_bind_eq_ok.mp h
    cases run_pure_eq_ok.mp hb
    simp [Creation.map, Creation.traverse, ← map_of_mapM (fun _ _ _ _ => Operand.map_traverse hf) hxs,
      Operand.map]
  | path source =>
    obtain ⟨x, u, hx, hb⟩ := run_bind_eq_ok.mp h
    cases run_pure_eq_ok.mp hb
    simp [Creation.map, Creation.traverse, hf _ _ _ _ hx]
  | combination a b matrix mode =>
    obtain ⟨x, u, hx, hrest⟩ := run_bind_eq_ok.mp h
    obtain ⟨y, v, hy, hb⟩ := run_bind_eq_ok.mp hrest
    cases run_pure_eq_ok.mp hb
    simp [Creation.map, Creation.traverse, hf _ _ _ _ hx, hf _ _ _ _ hy]
  | _ =>
    cases run_pure_eq_ok.mp h
    rfl

theorem Factory.map_eq_of_traverse (hf : ∀ r s x t, (f r).run s = .ok (x, t) → back x = r)
    {a : Factory ρ} {b : Factory σ} {s t : ς} (h : (a.traverse f).run s = .ok (b, t)) :
    b.map back = a := by
  have hstatements := Factory.map_traverse hf h
  obtain ⟨creation, u, hcreation, hrest⟩ := run_bind_eq_ok.mp h
  obtain ⟨statements, v, _, hb⟩ := run_bind_eq_ok.mp hrest
  cases run_pure_eq_ok.mp hb
  rw [Factory.map, Creation.map_traverse hf hcreation, hstatements]

end Answered

section Map

variable {ρ σ : Type} (f : ρ → σ)

theorem Operand.references_map (a : Operand ρ) : (a.map f).references = a.references.map f := by
  cases a <;> rfl

theorem Statement.references_map (s : Statement ρ) : (s.map f).references = s.references.map f := by
  cases s with
  | assign _ _ value | add _ value | setParameter _ _ value | startAnimation _ _ value =>
    cases value <;> rfl
  | insertKeyFrame _ value _ => cases value <;> rfl
  | _ => rfl

theorem Creation.references_map (c : Creation ρ) : (c.map f).references = c.references.map f := by
  cases c with
  | call method arguments =>
    rw [Creation.map_call]
    simp [Creation.references, List.flatMap_map, List.map_flatMap, Operand.references_map]
  | _ => rfl

theorem Factory.references_map (factory : Factory ρ) :
    (factory.map f).references = factory.references.map f := by
  simp only [Factory.references, Factory.map, Creation.references_map, List.map_append,
    List.flatMap_map, List.map_flatMap, Statement.references_map]

end Map

variable {n : Nat}

namespace Plan

variable {p : Plan n}

theorem factories_spec {s : Settings} {made made' : Calls}
    {factories : List (Fin n × Factory (Reply n))}
    (h : (p.factories s).run made = .ok (factories, made')) :
    ∀ entry ∈ factories, entry.1 ∈ p.withFactory ∧
      entry.2.map Reply.toRequest = p.factory s entry.1 ∧
      ∀ reply ∈ entry.2.references, ∃ again,
        reply.access = Site.accessOf p.sites[reply.caller] p.sites[reply.callee] again := by
  intro entry hentry
  obtain ⟨r, hr, made₁, made₂, hrun⟩ := exists_of_mem_mapM h hentry
  obtain ⟨factory, made₃, htraverse, hpure⟩ := run_bind_eq_ok.mp hrun
  cases run_pure_eq_ok.mp hpure
  refine ⟨hr, Factory.map_eq_of_traverse (fun _ _ _ _ hreply => p.request_of_reply hreply) htraverse,
    fun reply hreply => ?_⟩
  have hreferences := congrArg (fun x => x.run made₁)
    (Factory.references_traverse_append p.reply (p.factory s r))
  simp only [StateT.run_map, htraverse] at hreferences
  obtain ⟨request, _, made₄, made₅, hanswer⟩ := exists_of_mem_mapM hreferences.symm hreply
  rw [reply_run, Site.resolve_eq] at hanswer
  cases hrefusal : Site.refusal p.sites[request.caller] p.sites[request.callee]
      (made₄.contains (p.sites[request.caller].index, p.sites[request.callee].index)) with
  | some fault =>
    rw [hrefusal] at hanswer
    cases hanswer
  | none =>
    rw [hrefusal] at hanswer
    cases hanswer
    exact ⟨_, rfl⟩

end Plan

end SceneCompiler
