import SceneCompiler.Proofs.Compile.Construction
import SceneCompiler.Proofs.Constructor.Creation

/-!
# Reads of fields

While the constructor of a compiled scene runs, no field is read before it has been assigned exactly
if the depth-first order of the merged graph has each object after the earlier objects to which it
refers.
-/

namespace SceneCompiler

variable {n : Nat}

def Event.ReadsAssigned (events : List (Event n)) : Prop :=
  ∀ left j right, events = left ++ .read j :: right → .assign j ∈ left

namespace Event

theorem readsAssigned_filterMap {α : Type} {f : α → Option (Event n)} {l : List α} :
    ReadsAssigned (l.filterMap f) ↔
      ∀ left a right, l = left ++ a :: right → ∀ j, f a = some (.read j) →
        ∃ b ∈ left, f b = some (.assign j) := by
  constructor
  · rintro h left a right rfl j ha
    have hassign := h (left.filterMap f) j (right.filterMap f) (by simp [ha])
    exact List.mem_filterMap.mp hassign
  · intro h left j right hsplit
    obtain ⟨before, after, rfl, rfl, hafter⟩ := List.filterMap_eq_append_iff.mp hsplit
    obtain ⟨skipped, a, rest, rfl, hskipped, ha, _⟩ := List.filterMap_eq_cons_iff.mp hafter
    obtain ⟨b, hb, hassign⟩ := h (before ++ skipped) a rest (by simp) j ha
    rcases List.mem_append.mp hb with hbefore | hmem
    · exact List.mem_filterMap.mpr ⟨b, hbefore, hassign⟩
    · rw [hskipped b hmem] at hassign
      cases hassign

theorem readsAssigned_quiet {events : List (Event n)} :
    ReadsAssigned (quiet events) ↔ ReadsAssigned events := by
  rw [quiet, ← List.filterMap_eq_filter, readsAssigned_filterMap]
  constructor
  · intro h left j right hsplit
    obtain ⟨event, hevent, hassign⟩ := h left (.read j) right hsplit j rfl
    rwa [← (Option.guard_eq_some_iff.mp hassign).1]
  · intro h left event right hsplit j hread
    obtain ⟨rfl, _⟩ := Option.guard_eq_some_iff.mp hread
    exact ⟨.assign j, h left j right hsplit, rfl⟩

end Event

theorem Site.stored_of_field {caller callee : Site} {again : Bool} {name : String}
    (haccess : accessOf caller callee again = .field name)
    (hrefusal : refusal caller callee again = none) :
    callee.inline = none ∧ callee.retained = true ∧ callee.stored = true := by
  unfold accessOf at haccess
  split at haccess
  · cases haccess
  · rename_i hinline
    split at haccess
    · cases haccess
    · rename_i hcalls
      simp only [refusal, hinline, Option.isSome_none, Bool.false_eq_true, if_false, hcalls,
        Bool.or_false] at hrefusal
      cases hretained : callee.retained with
      | false => simp [hretained] at hrefusal
      | true =>
        cases hstored : callee.stored with
        | false =>
          simp only [hretained, hstored, Bool.not_true, Bool.false_eq_true, if_false] at hrefusal
          split at hrefusal <;> cases hrefusal
        | true => exact ⟨hinline, rfl, rfl⟩

def Plan.Grants (p : Plan n) (reply : Reply n) : Prop :=
  ∃ again, reply.access = Site.accessOf p.sites[reply.caller] p.sites[reply.callee] again ∧
    Site.refusal p.sites[reply.caller] p.sites[reply.callee] again = none

namespace Plan

variable {p : Plan n}

theorem grants_of_mem_replies {before requests : List (Request n)} {reply : Reply n}
    (hnone : p.firstRefusal before requests = none) (h : reply ∈ p.replies before requests) :
    p.Grants reply := by
  induction requests generalizing before with
  | nil => cases h
  | cons q requests ih =>
    obtain ⟨hrefusal, hrest⟩ := Option.or_eq_none_iff.mp hnone
    rcases List.mem_cons.mp h with rfl | h
    · exact ⟨before.contains q, rfl, hrefusal⟩
    · exact ih hrest h

theorem grants_of_inlined? {i : Fin n} {reply : Reply n} (h : p.inlined? i = some reply) :
    p.Grants reply := by
  unfold inlined? at h
  split at h
  · rename_i source hobject
    simp only [reply_run, Site.resolve_eq, List.contains_nil] at h
    cases hrefusal : Site.refusal p.sites[(p.request i source).caller]
        p.sites[(p.request i source).callee] false with
    | some fault =>
      rw [hrefusal] at h
      cases h
    | none =>
      rw [hrefusal] at h
      cases h
      exact ⟨_, rfl, hrefusal⟩
  · cases h

end Plan

/-- What an evaluation reads, it reads where a granted reply says so or in a call. -/
theorem Program.granted_of_read {prog : Program n} {call : Fin n → List (Event n)} {reply : Reply n}
    {j : Fin n} (hreply : prog.plan.Grants reply) (h : .read j ∈ prog.evaluate call reply) :
    (∃ granted, prog.plan.Grants granted ∧ granted.callee = j ∧
      ∃ name, granted.access = .field name) ∨ ∃ i, .read j ∈ call i := by
  have hobtain : ∀ reply : Reply n, prog.plan.Grants reply → .read j ∈ obtain? call reply →
      (∃ granted, prog.plan.Grants granted ∧ granted.callee = j ∧
        ∃ name, granted.access = .field name) ∨ ∃ i, .read j ∈ call i := by
    intro reply hreply h
    unfold obtain? at h
    split at h
    · exact .inr ⟨_, h⟩
    · rename_i name haccess
      cases List.mem_singleton.mp h
      exact .inl ⟨reply, hreply, rfl, name, haccess⟩
    · cases List.mem_singleton.mp h
  unfold evaluate at h
  split at h
  · split at h
    · rename_i inner hinlined
      exact hobtain inner (Plan.grants_of_inlined? hinlined) h
    · cases List.mem_singleton.mp h
  · exact hobtain reply hreply h

namespace Graph.Writes

variable {g : Graph n} {o : Options} {c : Compilation n} {program : Program n}
  (h : g.Writes o c program)

include h

theorem stored_of_read (depth : Nat) {i j : Fin n}
    (hread : .read j ∈ Event.quiet (program.run depth i)) :
    program.plan.sites[j].inline = none ∧ program.plan.sites[j].retained = true ∧
      program.plan.sites[j].stored = true := by
  induction depth generalizing i with
  | zero => simp [Program.run, Event.quiet] at hread
  | succ depth ih =>
    have hm := h.lawful
    obtain ⟨made, hrun⟩ := h.run
    by_cases hi : i ∈ program.plan.withFactory
    · obtain ⟨factory, asked, hlookup, _, hanswered, hnone⟩ :=
        h.follows.exists_answered hm h.kinded h.partsRetained hrun hi
      rw [Program.quiet_run_succ hlookup, hanswered.creation, hanswered.statements] at hread
      rw [Factory.references, Plan.firstRefusal_append, Option.or_eq_none_iff] at hnone
      have hreply : ∃ reply, program.plan.Grants reply ∧ .read j ∈ program.evaluate
          (fun j => Event.quiet (program.run depth j)) reply := by
        rcases List.mem_cons.mp hread with heq | hread
        · cases heq
        rcases List.mem_append.mp hread with hread | hread
        · rcases List.mem_append.mp hread with hread | hread
          · obtain ⟨reply, hmem, hread⟩ := List.mem_flatMap.mp hread
            exact ⟨reply, Plan.grants_of_mem_replies hnone.1 hmem, hread⟩
          · split at hread <;> simp at hread
        · obtain ⟨reply, hmem, hread⟩ := List.mem_flatMap.mp hread
          exact ⟨reply, Plan.grants_of_mem_replies hnone.2 hmem, hread⟩
      obtain ⟨reply, hgrants, hread⟩ := hreply
      rcases Program.granted_of_read hgrants hread with
        ⟨granted, ⟨again, haccess, hrefusal⟩, rfl, name, hfield⟩ | ⟨k, hcall⟩
      · exact Site.stored_of_field (haccess.symm.trans hfield) hrefusal
      · exact ih hcall
    · rw [Program.run, h.follows.lookup_eq_none hm hrun hi] at hread
      simp [Event.quiet] at hread

theorem shown_eq_assign {j : Fin n} (hread : .read j ∈ Event.quiet program.trace)
    (hj : j ∈ (g.merged o.setComments).representatives) (mark : Mark n) :
    program.plan.shown (g.merged o.setComments) mark = some (.assign j) ↔ mark = .create j := by
  obtain ⟨hinline, hretained, hstored⟩ := stored_of_read h n hread
  have hfactory : j ∈ program.plan.withFactory := by
    refine h.follows.mem_withFactory.mpr ⟨hj, ?_, ?_⟩
    · rw [h.follows.retained] at hretained
      simpa using hretained
    · rw [← h.follows.inline j hj, hinline]
      rfl
  cases mark with
  | enter i =>
    simp only [Plan.shown]
    split <;> simp
  | create i =>
    simp only [Plan.shown]
    constructor
    · intro hassign
      split at hassign <;> simp_all
    · intro hcreate
      cases hcreate
      rw [if_pos ⟨hfactory, hstored⟩]
  | read i k =>
    simp only [Plan.shown]
    split <;> simp

theorem readsAssigned_trace_iff :
    Event.ReadsAssigned program.trace ↔
      ∀ left a b right, (g.merged o.setComments).visit n g.root = left ++ .read a b :: right →
        (g.merged o.setComments).isAtHand a b = false → .create b ∈ left := by
  have hm := h.lawful
  have hroot := Merge.root_mem_representatives hm h.kinded
  have htrace := quiet_trace h
  have hshown : ∀ left a b right,
      (g.merged o.setComments).visit n g.root = left ++ .read a b :: right →
      (g.merged o.setComments).isAtHand a b = false → ∀ mark,
        program.plan.shown (g.merged o.setComments) mark = some (.assign b) ↔
          mark = .create b := by
    intro left a b right hsplit hhand
    have hmark : .read a b ∈ (g.merged o.setComments).visit n g.root := by simp [hsplit]
    obtain ⟨ha, hb⟩ := Merge.mem_targets_of_read hm n hroot hmark
    refine shown_eq_assign h ?_ (hm.targets_subset (Merge.mem_representatives.mp ha).1 hb)
    rw [htrace]
    exact List.mem_filterMap.mpr ⟨_, hmark, by simp [Plan.shown, hhand]⟩
  rw [← Event.readsAssigned_quiet, htrace, Event.readsAssigned_filterMap]
  constructor
  · intro hreads left a b right hsplit hhand
    obtain ⟨mark, hmem, hassign⟩ :=
      hreads left (.read a b) right hsplit b (by simp [Plan.shown, hhand])
    rwa [← (hshown left a b right hsplit hhand mark).mp hassign]
  · intro hreads left mark right hsplit j hread
    obtain ⟨a, rfl, hhand⟩ : ∃ a, mark = .read a j ∧
        (g.merged o.setComments).isAtHand a j = false := by
      cases mark with
      | enter i =>
        simp only [Plan.shown] at hread
        split at hread <;> cases hread
      | create i =>
        simp only [Plan.shown] at hread
        split at hread <;> cases hread
      | read i k =>
        simp only [Plan.shown] at hread
        split at hread
        · cases hread
        · rename_i hhand
          cases hread
          exact ⟨i, rfl, by simpa using hhand⟩
    exact ⟨.create j, hreads left a j right hsplit hhand,
      (hshown left a j right hsplit hhand _).mpr rfl⟩

end Graph.Writes

/-- While the constructor of a compiled scene runs, no field is read before it has been assigned
exactly if the depth-first order of the merged graph has each object after the earlier objects to
which it refers. -/
theorem reads_assigned_iff_keepsOrder {json : Option Json} {path : String} {scene : Scene}
    (hload : Scene.load json path = .ok scene) {o : Options} {c : Compilation scene.size}
    (hcompile : compile scene.heap scene.root o = .ok c) :
    ∃ program, c.plan.program ⟨o.durationMs, o.setComments⟩ = .ok program ∧
      c.code = program.code o ∧ .stuck ∉ program.trace ∧
      (Event.ReadsAssigned program.trace ↔
        ((Graph.ofRoot scene.heap scene.root).merged o.setComments).KeepsOrder) := by
  obtain ⟨program, h⟩ := Scene.exists_writes hload hcompile
  have hlength := h.ordered.length_le
  refine ⟨program, h.answered, h.code, h.stuck_not_mem_trace, ?_⟩
  rw [h.readsAssigned_trace_iff]
  exact Merge.reads_created_iff h.lawful h.kinded h.partsRetained hlength

/-- Two animations that merge, the second of them started by what the first refers to. -/
def earlyReadDocument : Option Json :=
  Scene.documentOf [
    ("root", .object [("type", .string "ContainerVisual"),
      ("animators", .array [
        .object [("property", .string "Opacity"), ("animation", .string "k")]])]),
    ("k", .object [("type", .string "ScalarKeyFrameAnimation"), ("duration", .number 1000),
      ("referenceParameters", .object [("p", .string "x"), ("q", .string "y")])]),
    ("k2", .object [("type", .string "ScalarKeyFrameAnimation"), ("duration", .number 1000),
      ("referenceParameters", .object [("p", .string "x"), ("q", .string "y")])]),
    ("x", .object [("type", .string "ContainerVisual"),
      ("animators", .array [
        .object [("property", .string "Opacity"), ("animation", .string "k2")],
        .object [("property", .string "Scale"), ("animation", .string "b")]])]),
    ("b", .object [("type", .string "ScalarKeyFrameAnimation"), ("duration", .number 1000),
      ("referenceParameters", .object [("q", .string "y")])]),
    ("y", .object [("type", .string "ContainerVisual")])]

theorem reads_unassigned_earlyRead :
    ∃ scene, Scene.load earlyReadDocument "scene.json" = .ok scene ∧
      ∃ c, compile scene.heap scene.root
          { className := "Scene", width := 100, height := 100, durationMs := 1000 } = .ok c ∧
        ∃ program, c.plan.program ⟨1000, false⟩ = .ok program ∧
          ¬Event.ReadsAssigned program.trace := by
  refine Scene.exists_compiles (by decide +kernel) fun scene hload c hcompile
    (horder : ¬((Graph.ofRoot scene.heap scene.root).merged false).KeepsOrder) => ?_
  obtain ⟨program, hprogram, _, _, hiff⟩ := reads_assigned_iff_keepsOrder hload hcompile
  exact ⟨program, hprogram, fun hreads => horder (hiff.mp hreads)⟩

end SceneCompiler
