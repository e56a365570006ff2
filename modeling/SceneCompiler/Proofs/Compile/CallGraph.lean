import Mathlib.Logic.Relation
import SceneCompiler.Proofs.Compile.FieldReads
import SceneCompiler.Proofs.Constructor.Resets

/-!
# The call graph

The body of a factory calls another where a reply in it says so, as it stands or inside the text of a
path that is written inline.  All calls climb the construction order, so the constructor comes to an
end, and they lead from the factory of the root to every other.
-/

namespace SceneCompiler

variable {n : Nat}

def Reply.call? (reply : Reply n) : Option (Reply n) :=
  match reply.access with
  | .factoryCall _ => some reply
  | _ => none

namespace Program

variable (prog : Program n)

def call? (reply : Reply n) : Option (Reply n) :=
  match reply.access with
  | .inline _ => (prog.plan.inlined? reply.callee).bind Reply.call?
  | _ => reply.call?

def Calls (i j : Fin n) : Prop :=
  ∃ entry ∈ prog.factories, entry.1 = i ∧
    ∃ reply ∈ entry.2.references, ∃ call, prog.call? reply = some call ∧ call.callee = j

variable {prog}

theorem obtain?_of_call? {reply call : Reply n} (h : reply.call? = some call)
    (run : Fin n → List (Event n)) : obtain? run reply = run call.callee := by
  unfold Reply.call? at h
  split at h
  · rename_i text haccess
    cases h
    simp [obtain?, haccess]
  · cases h

theorem obtain?_of_not_call? {reply : Reply n} (h : reply.call? = none) :
    ∃ event : Event n, (∀ i, event ≠ .enter i) ∧ ∀ run, obtain? run reply = [event] := by
  unfold Reply.call? at h
  cases haccess : reply.access with
  | factoryCall text => simp [haccess] at h
  | field text => exact ⟨.read reply.callee, by simp, fun run => by simp [obtain?, haccess]⟩
  | inline text => exact ⟨.stuck, by simp, fun run => by simp [obtain?, haccess]⟩

theorem evaluate_of_call? {reply call : Reply n} (h : prog.call? reply = some call)
    (run : Fin n → List (Event n)) : prog.evaluate run reply = run call.callee := by
  cases haccess : reply.access with
  | inline text =>
    simp only [call?, haccess] at h
    obtain ⟨inner, hinlined, hcall⟩ := Option.bind_eq_some_iff.mp h
    simp only [evaluate, haccess, hinlined]
    exact obtain?_of_call? hcall run
  | field text | factoryCall text =>
    simp only [call?, haccess] at h
    simp only [evaluate, haccess]
    exact obtain?_of_call? h run

theorem evaluate_of_not_call? {reply : Reply n} (h : prog.call? reply = none) :
    ∃ event : Event n, (∀ i, event ≠ .enter i) ∧ ∀ run, prog.evaluate run reply = [event] := by
  cases haccess : reply.access with
  | inline text =>
    simp only [call?, haccess] at h
    simp only [evaluate, haccess]
    cases hinlined : prog.plan.inlined? reply.callee with
    | none => exact ⟨.stuck, by simp, fun run => rfl⟩
    | some inner =>
      rw [hinlined, Option.bind_some] at h
      exact obtain?_of_not_call? h
  | field text | factoryCall text =>
    simp only [call?, haccess] at h
    simp only [evaluate, haccess]
    exact obtain?_of_not_call? h

theorem enter_run_succ {depth : Nat} {i j : Fin n} (h : .enter j ∈ prog.run (depth + 1) i) :
    j = i ∨ ∃ k, prog.Calls i k ∧ .enter j ∈ prog.run depth k := by
  rw [run] at h
  split at h
  · simp at h
  · rename_i factory hlookup
    obtain ⟨before, after, hsplit, _⟩ := List.lookup_eq_some_iff.mp hlookup
    have hentry : (i, factory) ∈ prog.factories := by simp [hsplit]
    have hcalled : ∀ reply ∈ factory.references,
        .enter j ∈ prog.evaluate (prog.run depth) reply →
          ∃ k, prog.Calls i k ∧ .enter j ∈ prog.run depth k := by
      intro reply hreply hmem
      cases hcall : prog.call? reply with
      | none =>
        obtain ⟨event, henter, heq⟩ := evaluate_of_not_call? hcall
        rw [heq, List.mem_singleton] at hmem
        exact absurd hmem.symm (henter j)
      | some call =>
        rw [evaluate_of_call? hcall] at hmem
        exact ⟨call.callee, ⟨_, hentry, rfl, reply, hreply, call, hcall, rfl⟩, hmem⟩
    simp only [List.mem_cons, List.mem_append, Event.enter.injEq] at h
    rcases h with rfl | (hcreation | hassign) | hperform
    · exact .inl rfl
    · obtain ⟨reply, hreply, hmem⟩ := List.mem_flatMap.mp hcreation
      exact .inr (hcalled reply (List.mem_append_left _ hreply) hmem)
    · split at hassign <;> simp at hassign
    · rcases mem_perform hperform with ⟨reply, hreply, hmem⟩ | ⟨s, _, k, heq⟩
      · exact .inr (hcalled reply (List.mem_append_right _ hreply) hmem)
      · cases heq

theorem reaches_of_enter (depth : Nat) {i j : Fin n} (h : .enter j ∈ prog.run depth i) :
    Relation.ReflTransGen prog.Calls i j := by
  induction depth generalizing i with
  | zero => simp [run] at h
  | succ depth ih =>
    rcases enter_run_succ h with rfl | ⟨k, hcalls, hmem⟩
    · exact .refl
    · exact .head hcalls (ih hmem)

theorem evaluate_congr {run run' : Fin n → List (Event n)} {reply : Reply n}
    (h : ∀ call, prog.call? reply = some call → run call.callee = run' call.callee) :
    prog.evaluate run reply = prog.evaluate run' reply := by
  cases hcall : prog.call? reply with
  | none =>
    obtain ⟨event, _, heq⟩ := evaluate_of_not_call? hcall
    rw [heq, heq]
  | some call => rw [evaluate_of_call? hcall, evaluate_of_call? hcall, h call hcall]

theorem perform_congr {run run' : Fin n → List (Event n)} (i : Fin n) (position : Nat)
    {ss : List (Statement (Reply n))}
    (h : ∀ reply ∈ ss.flatMap Statement.references,
      prog.evaluate run reply = prog.evaluate run' reply) :
    prog.perform run i position ss = prog.perform run' i position ss := by
  induction ss generalizing position with
  | nil => rfl
  | cons s ss ih =>
    simp only [List.flatMap_cons, List.mem_append] at h
    rw [perform, perform, ih _ fun reply hreply => h reply (.inr hreply),
      List.flatMap_congr fun reply hreply => h reply (.inl hreply)]

/-- Where calls climb a rank with a bound, calls that may go up to the bound are deep enough: letting
them go deeper changes nothing. -/
theorem run_eq_of_climbs (rank : Fin n → Nat) (bound : Nat)
    (hclimbs : ∀ i j, prog.Calls i j → rank i < rank j ∧ rank j < bound) (depth depth' : Nat)
    {i : Fin n} (hi : rank i < bound) (hdepth : bound ≤ depth + rank i)
    (hdepth' : bound ≤ depth' + rank i) : prog.run depth i = prog.run depth' i := by
  induction depth generalizing depth' i with
  | zero => omega
  | succ depth ih =>
    obtain ⟨depth', rfl⟩ : ∃ d, depth' = d + 1 := ⟨depth' - 1, by omega⟩
    rw [run, run]
    split
    · rfl
    · rename_i factory hlookup
      obtain ⟨before, after, hsplit, _⟩ := List.lookup_eq_some_iff.mp hlookup
      have hentry : (i, factory) ∈ prog.factories := by simp [hsplit]
      have hreplies : ∀ reply ∈ factory.references,
          prog.evaluate (prog.run depth) reply = prog.evaluate (prog.run depth') reply := by
        intro reply hreply
        apply evaluate_congr
        intro call hcall
        obtain ⟨hlt, hbound⟩ :=
          hclimbs i call.callee ⟨_, hentry, rfl, reply, hreply, call, hcall, rfl⟩
        exact ih depth' hbound (by omega) (by omega)
      rw [List.flatMap_congr fun reply hreply => hreplies reply (List.mem_append_left _ hreply),
        perform_congr i 0 fun reply hreply => hreplies reply (List.mem_append_right _ hreply)]

end Program

theorem Site.inline_of_access {caller callee : Site} {again : Bool} {text : String}
    (h : accessOf caller callee again = .inline text) : callee.inline = some text := by
  unfold accessOf at h
  split at h
  · rename_i hinline
    cases h
    exact hinline
  · split at h <;> cases h

theorem Site.text_of_call {caller callee : Site} {again : Bool} {text : String}
    (h : accessOf caller callee again = .factoryCall text) : text = callee.name ++ "()" := by
  unfold accessOf at h
  split at h
  · cases h
  · rename_i hinline
    split at h
    · cases h
      simp [factoryCall, hinline]
    · cases h

theorem Plan.Grants.text_of_call? {p : Plan n} {reply call : Reply n} (h : p.Grants reply)
    (hcall : reply.call? = some call) :
    call = reply ∧ reply.access.text = p.sites[reply.callee].name ++ "()" := by
  obtain ⟨again, haccess, _⟩ := h
  unfold Reply.call? at hcall
  split at hcall
  · rename_i text hcalled
    cases hcall
    refine ⟨rfl, ?_⟩
    rw [hcalled]
    exact Site.text_of_call (haccess.symm.trans hcalled)
  · cases hcall

namespace Graph.Writes

variable {g : Graph n} {o : Options} {c : Compilation n} {program : Program n}
  (h : g.Writes o c program)

include h

theorem lookup_of_mem {entry : Fin n × Factory (Reply n)} (hentry : entry ∈ program.factories) :
    program.factories.lookup entry.1 = some entry.2 := by
  have hnodup := h.follows.nodup_withFactory h.lawful.nodup_representatives
  rw [h.plan, ← h.map_fst_factories] at hnodup
  exact lookup_of_mem_nodup hnodup hentry

theorem exists_asked {entry : Fin n × Factory (Reply n)} (hentry : entry ∈ program.factories) :
    entry.1 ∈ program.plan.withFactory ∧
      (∀ reply ∈ entry.2.references, program.plan.Grants reply) ∧
      ∃ asked, (g.merged o.setComments).Asked entry.1 [] asked ∧
        program.plan.Answered ⟨o.durationMs, o.setComments⟩ asked entry.1 entry.2 := by
  obtain ⟨made, hrun⟩ := h.run
  have hfactory : entry.1 ∈ program.plan.withFactory := by
    rw [h.plan, ← h.map_fst_factories]
    exact List.mem_map_of_mem hentry
  obtain ⟨factory, asked, hlookup, hasked, hanswered, hnone⟩ := h.follows.exists_answered
    h.lawful h.kinded h.partsRetained hrun hfactory
  rw [h.lookup_of_mem hentry] at hlookup
  cases hlookup
  refine ⟨hfactory, fun reply hreply => ?_, asked, hasked, hanswered⟩
  rw [Factory.references, Plan.firstRefusal_append, Option.or_eq_none_iff] at hnone
  rcases List.mem_append.mp hreply with hreply | hreply
  · rw [hanswered.creation] at hreply
    exact Plan.grants_of_mem_replies hnone.1 hreply
  · rw [hanswered.statements] at hreply
    exact Plan.grants_of_mem_replies hnone.2 hreply

theorem callee_mem_representatives {entry : Fin n × Factory (Reply n)}
    (hentry : entry ∈ program.factories) {reply : Reply n} (hreply : reply ∈ entry.2.references) :
    reply.callee ∈ (g.merged o.setComments).representatives := by
  have hm := h.lawful
  have hmem := List.mem_map_of_mem (f := Reply.toRequest) hreply
  rw [h.map_toRequest_references hentry] at hmem
  have hfactory := (h.exists_asked hentry).1
  obtain ⟨hcaller, hcallee⟩ :=
    h.follows.callee_mem_targets hm (h.follows.mem_withFactory.mp hfactory).1 hmem
  exact hm.targets_subset (Merge.mem_representatives.mp hcaller).1 hcallee

theorem calls_later {i j : Fin n} (hcalls : program.Calls i j) :
    j ∈ program.plan.withFactory ∧ g.index i < g.index j := by
  obtain ⟨entry, hentry, rfl, reply, hreply, call, hcall, rfl⟩ := hcalls
  obtain ⟨made, hrun⟩ := h.run
  obtain ⟨hfactory, _, asked, hasked, hanswered⟩ := h.exists_asked hentry
  exact h.follows.later_of_called h.lawful h.kinded h.partsRetained hrun
    hfactory hasked hanswered hreply (Program.evaluate_of_call? hcall)

theorem text_of_call? {entry : Fin n × Factory (Reply n)} (hentry : entry ∈ program.factories)
    {reply call : Reply n} (hreply : reply ∈ entry.2.references)
    (hcall : program.call? reply = some call) :
    call.access.text = program.plan.sites[call.callee].name ++ "()" ∧
      (reply = call ∨ reply.access.text =
        o.dialect.newOperator ++ " CompositionPath(" ++ call.access.text ++ ")") := by
  have hgrants := (h.exists_asked hentry).2.1 reply hreply
  unfold Program.call? at hcall
  split at hcall
  · rename_i text haccess
    obtain ⟨inner, hinlined, hinner⟩ := Option.bind_eq_some_iff.mp hcall
    obtain ⟨rfl, htext⟩ := (Plan.grants_of_inlined? hinlined).text_of_call? hinner
    refine ⟨htext, .inr ?_⟩
    have hinline : program.plan.sites[reply.callee].inline = some text := by
      obtain ⟨again, hgranted, _⟩ := hgrants
      exact Site.inline_of_access (hgranted.symm.trans haccess)
    have hcallee := h.callee_mem_representatives hentry hreply
    have hm := h.lawful
    obtain ⟨source, _, _, _, hinlined', htext'⟩ := h.follows.inlined?_eq hm h.kinded hcallee (by
      rw [← h.follows.inline _ hcallee, hinline]
      rfl)
    rw [hinlined] at hinlined'
    cases hinlined'
    rw [hinline] at htext'
    rw [haccess]
    exact Option.some.inj htext'
  · obtain ⟨rfl, htext⟩ := hgrants.text_of_call? hcall
    exact ⟨htext, .inl rfl⟩

theorem reaches {i : Fin n} (hi : i ∈ program.plan.withFactory) :
    Relation.ReflTransGen program.Calls program.plan.root i :=
  Program.reaches_of_enter n (h.enter_mem_trace hi)

theorem run_eq_trace {depth : Nat} (hdepth : n ≤ depth) :
    program.run depth program.plan.root = program.trace := by
  have hlength := h.ordered.length_le
  have hbound : ∀ i ∈ program.plan.withFactory, g.index i < g.order.length := by
    intro i hi
    have hrep := Merge.mem_representatives.mp (h.follows.mem_withFactory.mp hi).1
    exact List.idxOf_lt_length_of_mem hrep.1
  have hroot : program.plan.root ∈ program.plan.withFactory := by
    rw [h.plan_root]
    exact h.root_mem_withFactory
  apply Program.run_eq_of_climbs g.index g.order.length
  · intro i j hcalls
    obtain ⟨hj, hlt⟩ := h.calls_later hcalls
    exact ⟨hlt, hbound j hj⟩
  · exact hbound _ hroot
  · omega
  · omega

end Graph.Writes

/-- Every call in the body of a factory of a compiled scene is for a factory that comes later in the
construction order, the constructor comes to an end, and calls lead from the factory of the root to
every other. -/
theorem calls_climb_from_root {json : Option Json} {path : String} {scene : Scene}
    (hload : Scene.load json path = .ok scene) {o : Options} {c : Compilation scene.size}
    (hcompile : compile scene.heap scene.root o = .ok c) :
    ∃ program, c.plan.program ⟨o.durationMs, o.setComments⟩ = .ok program ∧
      c.code = program.code o ∧ program.factories.map Prod.fst = c.plan.withFactory ∧
      (∀ entry ∈ program.factories, ∀ reply ∈ entry.2.references, ∀ call,
        program.call? reply = some call →
          call.access.text = c.plan.sites[call.callee].name ++ "()" ∧
            (reply = call ∨ reply.access.text =
              o.dialect.newOperator ++ " CompositionPath(" ++ call.access.text ++ ")")) ∧
      (∀ i j, program.Calls i j → j ∈ c.plan.withFactory ∧
        (Graph.ofRoot scene.heap scene.root).index i <
          (Graph.ofRoot scene.heap scene.root).index j) ∧
      (∀ i ∈ c.plan.withFactory, Relation.ReflTransGen program.Calls c.plan.root i) ∧
      (∀ depth, scene.size ≤ depth → program.run depth c.plan.root = program.trace) ∧
      .stuck ∉ program.trace := by
  obtain ⟨program, h⟩ := Scene.exists_writes hload hcompile
  refine ⟨program, h.answered, h.code, h.map_fst_factories, ?_⟩
  rw [← h.plan]
  exact ⟨fun entry hentry reply hreply call hcall => h.text_of_call? hentry hreply hcall,
    fun i j hcalls => h.calls_later hcalls, fun i hi => h.reaches hi,
    fun depth hdepth => h.run_eq_trace hdepth, h.stuck_not_mem_trace⟩

/-- A shape whose path is written inline and whose animation refers back to the root.  A transient
animation of the root refers to the root and to the shape. -/
def tracedPathDocument : Option Json :=
  Scene.documentOf [
    ("root", .object [("type", .string "ShapeVisual"), ("shapes", .array [.string "s"]),
      ("animators", .array [
        .object [("property", .string "Opacity"), ("animation", .string "e")]])]),
    ("s", .object [("type", .string "CompositionSpriteShape"), ("geometry", .string "g"),
      ("animators", .array [
        .object [("property", .string "RotationAngleInDegrees"), ("animation", .string "k")]])]),
    ("g", .object [("type", .string "CompositionPathGeometry"), ("path", .string "p")]),
    ("p", .object [("type", .string "CompositionPath"), ("source", .string "q")]),
    ("q", .object [("type", .string "CanvasGeometry"), ("geometryType", .string "Ellipse"),
      ("x", .number 0), ("y", .number 0), ("radiusX", .number 1), ("radiusY", .number 2)]),
    ("k", .object [("type", .string "ScalarKeyFrameAnimation"), ("duration", .number 1000),
      ("referenceParameters", .object [("host", .string "root")])]),
    ("e", .object [("type", .string "ExpressionAnimation"), ("expression", .string "a"),
      ("referenceParameters", .object [("self", .string "root"), ("shape", .string "s")])])]

theorem calls_climb_tracedPath :
    ∃ scene, Scene.load tracedPathDocument "scene.json" = .ok scene ∧
      ∃ c, compile scene.heap scene.root
          { className := "Scene", width := 100, height := 100, durationMs := 1000 } = .ok c ∧
        ((∃ i ∈ ((Graph.ofRoot scene.heap scene.root).merged false).representatives,
            ((Graph.ofRoot scene.heap scene.root).merged false).inlines i = true) ∧
          (∃ i ∈ ((Graph.ofRoot scene.heap scene.root).merged false).representatives,
            ((Graph.ofRoot scene.heap scene.root).merged false).transient i = true) ∧
          ∃ i ∈ ((Graph.ofRoot scene.heap scene.root).merged false).representatives,
            ((Graph.ofRoot scene.heap scene.root).merged false).transient i = false ∧
              scene.root ∈ (Graph.ofRoot scene.heap scene.root).outReferences i) ∧
        ∃ program, c.plan.program ⟨1000, false⟩ = .ok program ∧
          (∀ i j, program.Calls i j → (Graph.ofRoot scene.heap scene.root).index i <
            (Graph.ofRoot scene.heap scene.root).index j) ∧
          ∀ i ∈ c.plan.withFactory, Relation.ReflTransGen program.Calls c.plan.root i := by
  refine Scene.exists_compiles_and (by decide +kernel) fun scene hload c hcompile => ?_
  obtain ⟨program, hprogram, _, _, _, hclimbs, hreaches, _⟩ :=
    calls_climb_from_root hload hcompile
  exact ⟨program, hprogram, fun i j hcalls => (hclimbs i j hcalls).2, hreaches⟩

end SceneCompiler
