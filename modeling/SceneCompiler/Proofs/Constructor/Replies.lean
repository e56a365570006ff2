import SceneCompiler.Proofs.Constructor.Program
import SceneCompiler.Proofs.Factory.Requests

/-!
# Replies

Requests are answered one after another with the calls made so far in mind.  What is remembered of
them is whether the same request was made before, so a list of requests has the replies that its
earlier requests determine, or the fault of the first request that is refused.
-/

namespace SceneCompiler

namespace Site

variable (caller callee : Site) (again : Bool)

def calls : Bool :=
  callee.inline.isNone && decide (caller.index < callee.index) && !again

def accessOf : Access :=
  match callee.inline with
  | some text => .inline text
  | none => if calls caller callee again then .factoryCall callee.factoryCall else .field callee.fieldName

def refusal : Option Fault :=
  if callee.inline.isSome then none
  else if !callee.retained then some (.noFactory caller.label callee.label)
  else if callee.stored || calls caller callee again then none
  else if caller.index < callee.index then some (.duplicateCall caller.label callee.label)
  else some (.missingStorage caller.label callee.label)

theorem resolve_eq (made : Calls) :
    resolve made caller callee =
      match refusal caller callee (made.contains (caller.index, callee.index)) with
      | some fault => .error fault
      | none =>
        .ok (accessOf caller callee (made.contains (caller.index, callee.index)),
          if calls caller callee (made.contains (caller.index, callee.index)) then
            made ++ [(caller.index, callee.index)]
          else made) := by
  unfold resolve refusal accessOf calls
  cases callee.inline with
  | some text => simp
  | none =>
    cases callee.retained <;> cases callee.stored <;>
      cases made.contains (caller.index, callee.index) <;>
      by_cases hle : callee.index ≤ caller.index <;>
      simp [Ordinal.le, hle, Nat.not_lt.mpr, Nat.lt_of_not_le]

theorem congr_again {again' : Bool} (h : calls caller callee false = true → again = again') :
    calls caller callee again = calls caller callee again' ∧
      accessOf caller callee again = accessOf caller callee again' ∧
      refusal caller callee again = refusal caller callee again' := by
  have hcalls : calls caller callee again = calls caller callee again' := by
    cases hfalse : calls caller callee false with
    | true => rw [h hfalse]
    | false =>
      simp only [calls, Bool.not_false, Bool.and_true] at hfalse
      simp [calls, hfalse]
  refine ⟨hcalls, ?_, ?_⟩
  · simp [accessOf, hcalls]
  · simp [refusal, hcalls]

end Site

namespace Plan

variable {n : Nat} (p : Plan n)

def isCall (before : List (Request n)) (q : Request n) : Bool :=
  Site.calls p.sites[q.caller] p.sites[q.callee] (before.contains q)

theorem isCall_eq (before : List (Request n)) (q : Request n) :
    p.isCall before q = (p.isCall [] q && !before.contains q) := by
  simp [isCall, Site.calls]

def accessOf (before : List (Request n)) (q : Request n) : Access :=
  Site.accessOf p.sites[q.caller] p.sites[q.callee] (before.contains q)

def refusal (before : List (Request n)) (q : Request n) : Option Fault :=
  Site.refusal p.sites[q.caller] p.sites[q.callee] (before.contains q)

def replies : (before requests : List (Request n)) → List (Reply n)
  | _, [] => []
  | before, q :: rest => ⟨q, p.accessOf before q⟩ :: replies (before ++ [q]) rest

def firstRefusal : (before requests : List (Request n)) → Option Fault
  | _, [] => none
  | before, q :: rest => (p.refusal before q).or (firstRefusal (before ++ [q]) rest)

theorem replies_append (before left right : List (Request n)) :
    p.replies before (left ++ right) =
      p.replies before left ++ p.replies (before ++ left) right := by
  induction left generalizing before with
  | nil => simp [replies]
  | cons q left ih => simp [replies, ih]

theorem map_toRequest_replies (before requests : List (Request n)) :
    (p.replies before requests).map Reply.toRequest = requests := by
  induction requests generalizing before with
  | nil => rfl
  | cons q requests ih => simp [replies, ih]

theorem firstRefusal_append (before left right : List (Request n)) :
    p.firstRefusal before (left ++ right) =
      (p.firstRefusal before left).or (p.firstRefusal (before ++ left) right) := by
  induction left generalizing before with
  | nil => simp [firstRefusal]
  | cons q left ih => simp [firstRefusal, ih, Option.or_assoc]

theorem exists_refused {before requests : List (Request n)} {fault : Fault}
    (h : p.firstRefusal before requests = some fault) :
    ∃ left q right, requests = left ++ q :: right ∧ p.refusal (before ++ left) q = some fault := by
  induction requests generalizing before with
  | nil => cases h
  | cons q requests ih =>
    rw [firstRefusal, Option.or_eq_some_iff] at h
    rcases h with hfirst | ⟨_, hrest⟩
    · exact ⟨[], q, requests, rfl, by simpa using hfirst⟩
    · obtain ⟨left, q', right, rfl, hrefused⟩ := ih hrest
      exact ⟨q :: left, q', right, rfl, by simpa using hrefused⟩

theorem refusal_eq_none {before left right : List (Request n)} {q : Request n}
    (h : p.firstRefusal before (left ++ q :: right) = none) :
    p.refusal (before ++ left) q = none := by
  rw [firstRefusal_append, Option.or_eq_none_iff] at h
  exact (Option.or_eq_none_iff.mp h.2).1

def pairOf (q : Request n) : Nat × Nat :=
  (p.sites[q.caller].index, p.sites[q.callee].index)

def Recalls (requests : List (Request n)) (made : Calls) (before : List (Request n)) : Prop :=
  ∀ q ∈ requests, p.isCall [] q = true → (p.pairOf q ∈ made ↔ q ∈ before)

theorem reply_run (q : Request n) (made : Calls) :
    (p.reply q).run made =
      (fun result => (⟨q, result.1⟩, result.2)) <$>
        resolve made p.sites[q.caller] p.sites[q.callee] := by
  change (resolve made p.sites[q.caller] p.sites[q.callee]).bind _ = _
  cases resolve made p.sites[q.caller] p.sites[q.callee] <;> rfl

section Answers

variable {p} {requests : List (Request n)}

theorem reply_run_eq {q : Request n} {made : Calls} {before : List (Request n)}
    (hq : q ∈ requests) (h : p.Recalls requests made before) :
    (p.reply q).run made =
      match p.refusal before q with
      | some fault => .error fault
      | none =>
        .ok (⟨q, p.accessOf before q⟩,
          if p.isCall before q then made ++ [p.pairOf q] else made) := by
  have hagain : Site.calls p.sites[q.caller] p.sites[q.callee] false = true →
      made.contains (p.pairOf q) = before.contains q := by
    intro hcall
    have hiff := h q hq hcall
    rw [Bool.eq_iff_iff]
    simpa using hiff
  obtain ⟨hcalls, haccess, hrefusal⟩ := Site.congr_again _ _ _ hagain
  rw [reply_run, Site.resolve_eq]
  unfold refusal accessOf isCall
  rw [← hcalls, ← haccess, ← hrefusal]
  change _ <$> (match Site.refusal _ _ (made.contains (p.pairOf q)) with
    | some fault => _ | none => _) = _
  cases Site.refusal p.sites[q.caller] p.sites[q.callee] (made.contains (p.pairOf q)) <;> rfl

variable (hinj : ∀ q ∈ requests, ∀ q' ∈ requests, p.pairOf q = p.pairOf q' → q = q')

include hinj

theorem Recalls.concat {q : Request n} {made : Calls} {before : List (Request n)}
    (hq : q ∈ requests) (h : p.Recalls requests made before) :
    p.Recalls requests (if p.isCall before q then made ++ [p.pairOf q] else made)
      (before ++ [q]) := by
  intro q' hq' hcall
  have hiff := h q' hq' hcall
  by_cases heq : q' = q
  · subst heq
    rw [isCall_eq, hcall, Bool.true_and]
    cases hbefore : before.contains q' with
    | false => simp
    | true =>
      have hmem : q' ∈ before := by simpa using hbefore
      simp [hiff.mpr hmem]
  · have hne : p.pairOf q' ≠ p.pairOf q := fun hpair => heq (hinj q' hq' q hq hpair)
    split <;> simp [hiff, heq, hne]

theorem mapM_reply_run (asked : List (Request n)) {made : Calls} {before : List (Request n)}
    (hsub : asked ⊆ requests) (h : p.Recalls requests made before)
    (hnone : p.firstRefusal before asked = none) :
    ∃ made', (asked.mapM p.reply).run made = .ok (p.replies before asked, made') ∧
      p.Recalls requests made' (before ++ asked) := by
  induction asked generalizing made before with
  | nil => exact ⟨made, by rw [List.mapM_nil]; rfl, by simpa using h⟩
  | cons q asked ih =>
    obtain ⟨hq, hrest⟩ := List.cons_subset.mp hsub
    obtain ⟨hrefusal, hnone⟩ := Option.or_eq_none_iff.mp hnone
    obtain ⟨made', hrun, hrecalls⟩ := ih hrest (h.concat hinj hq) hnone
    refine ⟨made', ?_, by simpa using hrecalls⟩
    rw [List.mapM_cons]
    refine run_bind_eq_ok.mpr ⟨_, _, ?_, run_bind_eq_ok.mpr ⟨_, _, hrun, rfl⟩⟩
    rw [reply_run_eq hq h, hrefusal]

theorem mapM_reply_error (asked : List (Request n)) {made : Calls} {before : List (Request n)}
    (hsub : asked ⊆ requests) (h : p.Recalls requests made before) {fault : Fault}
    (hfault : p.firstRefusal before asked = some fault) :
    (asked.mapM p.reply).run made = .error fault := by
  induction asked generalizing made before with
  | nil => cases hfault
  | cons q asked ih =>
    obtain ⟨hq, hrest⟩ := List.cons_subset.mp hsub
    rw [List.mapM_cons]
    rw [firstRefusal] at hfault
    have hreply := reply_run_eq hq h
    cases hrefusal : p.refusal before q with
    | some first =>
      rw [hrefusal, Option.some_or] at hfault
      cases hfault
      rw [hrefusal] at hreply
      exact run_bind_of_error _ hreply
    | none =>
      rw [hrefusal, Option.none_or] at hfault
      rw [hrefusal] at hreply
      rw [run_bind_of_ok _ hreply]
      exact run_bind_of_error _ (ih hrest (h.concat hinj hq) hfault)

/-- A factory whose requests have been answered, the requests `before` having been made. -/
structure Answered (p : Plan n) (s : Settings) (before : List (Request n)) (r : Fin n)
    (factory : Factory (Reply n)) : Prop where
  creation : factory.creation.references =
    p.replies before (p.factory s r).creation.references
  statements : factory.statements.flatMap Statement.references =
    p.replies (before ++ (p.factory s r).creation.references)
      ((p.factory s r).statements.flatMap Statement.references)
  same : factory.statements.map (Statement.map Reply.toRequest) = (p.factory s r).statements

theorem replies_of_mapM {asked : List (Request n)} {made made' : Calls}
    {before : List (Request n)} {answers : List (Reply n)} (hsub : asked ⊆ requests)
    (h : p.Recalls requests made before)
    (hrun : (asked.mapM p.reply).run made = .ok (answers, made')) :
    answers = p.replies before asked ∧ p.Recalls requests made' (before ++ asked) := by
  cases hrefusal : p.firstRefusal before asked with
  | some fault =>
    rw [mapM_reply_error hinj asked hsub h hrefusal] at hrun
    cases hrun
  | none =>
    obtain ⟨made'', hrun', hrecalls⟩ := mapM_reply_run hinj asked hsub h hrefusal
    rw [hrun] at hrun'
    cases hrun'
    exact ⟨rfl, hrecalls⟩

theorem answered_of_traverse {s : Settings} {r : Fin n} {factory : Factory (Reply n)}
    {made made' : Calls} {before : List (Request n)}
    (hsub : (p.factory s r).references ⊆ requests) (h : p.Recalls requests made before)
    (hrun : ((p.factory s r).traverse p.reply).run made = .ok (factory, made')) :
    Answered p s before r factory ∧
      p.Recalls requests made' (before ++ (p.factory s r).references) := by
  have hparts := congrArg (fun x => x.run made)
    (Factory.references_traverse p.reply (p.factory s r))
  simp only [StateT.run_map, hrun] at hparts
  obtain ⟨creation, made₁, hcreation, hrest⟩ := run_bind_eq_ok.mp hparts.symm
  obtain ⟨statements, made₂, hstatements, hpure⟩ := run_bind_eq_ok.mp hrest
  obtain ⟨hsubCreation, hsubStatements⟩ := List.append_subset.mp hsub
  obtain ⟨rfl, hrecalls₁⟩ := replies_of_mapM hinj hsubCreation h hcreation
  obtain ⟨rfl, hrecalls₂⟩ := replies_of_mapM hinj hsubStatements hrecalls₁ hstatements
  have hequal := run_pure_eq_ok.mp hpure
  simp only [Prod.mk.injEq] at hequal
  obtain ⟨⟨hfirst, hsecond⟩, rfl⟩ := hequal
  refine ⟨⟨hfirst.symm, hsecond.symm, ?_⟩, by simpa [Factory.references] using hrecalls₂⟩
  exact Factory.map_traverse (fun _ _ _ _ hreply => p.request_of_reply hreply) hrun

def emission (p : Plan n) (s : Settings) (rs : List (Fin n)) : List (Request n) :=
  rs.flatMap fun r => (p.factory s r).references

omit hinj in
theorem references_factories (p : Plan n) (s : Settings) :
    (fun factories => factories.flatMap fun entry => entry.2.references) <$> p.factories s =
      (p.emission s p.withFactory).mapM p.reply := by
  refine flatMap_mapM (fun r => ?_) p.withFactory
  rw [← Factory.references_traverse_append]
  simp

theorem factories_run {s : Settings} {made : Calls}
    (hsub : p.emission s p.withFactory ⊆ requests) (h : p.Recalls requests made [])
    (hnone : p.firstRefusal [] (p.emission s p.withFactory) = none) :
    ∃ factories made', (p.factories s).run made = .ok (factories, made') := by
  obtain ⟨made', hrun, _⟩ := mapM_reply_run hinj _ hsub h hnone
  rw [← references_factories, StateT.run_map] at hrun
  cases hfactories : (p.factories s).run made with
  | error fault =>
    rw [hfactories] at hrun
    cases hrun
  | ok result => exact ⟨result.1, result.2, rfl⟩

theorem factories_error {s : Settings} {made : Calls} {fault : Fault}
    (hsub : p.emission s p.withFactory ⊆ requests) (h : p.Recalls requests made [])
    (hfault : p.firstRefusal [] (p.emission s p.withFactory) = some fault) :
    (p.factories s).run made = .error fault := by
  have herror := mapM_reply_error hinj _ hsub h hfault
  rw [← references_factories, StateT.run_map] at herror
  cases hfactories : (p.factories s).run made with
  | error other =>
    rw [hfactories] at herror
    cases herror
    rfl
  | ok result =>
    rw [hfactories] at herror
    cases herror

theorem factories_answered {s : Settings} {made made' : Calls}
    {factories : List (Fin n × Factory (Reply n))}
    (hsub : p.emission s p.withFactory ⊆ requests) (h : p.Recalls requests made [])
    (hrun : (p.factories s).run made = .ok (factories, made')) :
    factories.map Prod.fst = p.withFactory ∧
      ∀ entry ∈ factories, ∃ earlier later, p.withFactory = earlier ++ entry.1 :: later ∧
        Answered p s (p.emission s earlier) entry.1 entry.2 := by
  have hgeneral : ∀ (rs earlier : List (Fin n)) (made : Calls)
      (factories : List (Fin n × Factory (Reply n))),
      p.emission s rs ⊆ requests → p.Recalls requests made (p.emission s earlier) →
      (rs.mapM fun r => do
        let factory ← (p.factory s r).traverse p.reply
        return (r, factory)).run made = .ok (factories, made') →
      factories.map Prod.fst = rs ∧
        ∀ entry ∈ factories, ∃ middle later, rs = middle ++ entry.1 :: later ∧
          Answered p s (p.emission s (earlier ++ middle)) entry.1 entry.2 := by
    intro rs
    induction rs with
    | nil =>
      intro earlier made factories _ _ hrun
      rw [List.mapM_nil] at hrun
      cases run_pure_eq_ok.mp hrun
      exact ⟨rfl, fun _ hentry => absurd hentry List.not_mem_nil⟩
    | cons r rs ih =>
      intro earlier made factories hsub h hrun
      rw [List.mapM_cons] at hrun
      obtain ⟨entry, made₁, hentry, hrest⟩ := run_bind_eq_ok.mp hrun
      obtain ⟨factory, made₂, htraverse, hpure⟩ := run_bind_eq_ok.mp hentry
      cases run_pure_eq_ok.mp hpure
      obtain ⟨others, made₃, hothers, hpure'⟩ := run_bind_eq_ok.mp hrest
      cases run_pure_eq_ok.mp hpure'
      rw [emission, List.flatMap_cons] at hsub
      obtain ⟨hsubFirst, hsubRest⟩ := List.append_subset.mp hsub
      obtain ⟨hanswered, hrecalls⟩ := answered_of_traverse hinj hsubFirst h htraverse
      have hconcat : p.emission s earlier ++ (p.factory s r).references =
          p.emission s (earlier ++ [r]) := by simp [emission]
      rw [hconcat] at hrecalls
      obtain ⟨hfst, hall⟩ := ih (earlier ++ [r]) _ _ hsubRest hrecalls hothers
      refine ⟨by simp [hfst], fun e he => ?_⟩
      rcases List.mem_cons.mp he with rfl | he
      · exact ⟨[], rs, rfl, by simpa using hanswered⟩
      · obtain ⟨middle, later, hsplit, hans⟩ := hall e he
        refine ⟨r :: middle, later, by simp [hsplit], ?_⟩
        simpa using hans
  obtain ⟨hfst, hall⟩ := hgeneral p.withFactory [] made factories hsub h hrun
  refine ⟨hfst, fun entry hentry => ?_⟩
  obtain ⟨middle, later, hsplit, hans⟩ := hall entry hentry
  exact ⟨middle, later, hsplit, by simpa using hans⟩

end Answers

end Plan

end SceneCompiler
