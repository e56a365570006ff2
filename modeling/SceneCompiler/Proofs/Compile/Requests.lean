import SceneCompiler.Proofs.Compile.Construction

/-!
# Requests and references

A factory asks for what its object refers to, reference by reference.  A transient animation is built
at its binding, so its parameters are asked for in its place, on its behalf.  A path that is written
inline has no factory: it asks for what it is made from while the plan is drawn.
-/

namespace SceneCompiler

variable {n : Nat}

namespace Plan

variable (p : Plan n)

/-- What the factory of `r` asks for where its object refers to `k`: what stands for `k` or, if that
has no factory because it is a transient animation, what stands for each of its parameters.  A
parameter that is the object itself is at hand if the animation is bound on the object or its
properties, and not on a controller. -/
def requestsFor (r k : Fin n) : List (Request n) :=
  match p.merge.object k with
  | .composition _ (.expressionAnimation parameters _) =>
    if (p.site k).retained then [⟨r, p.merge.representative[k]⟩]
    else
      let own := ((p.merge.object r).animators.map Animator.animation).contains k
      let asked := parameters.targets.filter fun target => !(own && target == r)
      asked.map fun target => ⟨p.merge.representative[k], p.merge.representative[target]⟩
  | _ => [⟨r, p.merge.representative[k]⟩]

def inlineRequest? (r : Fin n) : Option (Request n) :=
  match p.merge.object r with
  | .path _ source =>
    if p.sites[r].inline.isSome then some ⟨r, p.merge.representative[source]⟩ else none
  | _ => none

def inlineRequests : List (Request n) :=
  p.merge.representatives.filterMap p.inlineRequest?

variable {p}

theorem requestsFor_eq_bindingRequests {r k : Fin n} :
    p.requestsFor r k =
      p.bindingRequests r (((p.merge.object r).animators.map Animator.animation).contains k, k) :=
  rfl

theorem requestsFor_of_retained {r k : Fin n} (h : (p.site k).retained = true) :
    p.requestsFor r k = [⟨r, p.merge.representative[k]⟩] := by
  unfold requestsFor
  split
  · rw [if_pos h]
  · rfl

namespace Follows

variable {m : Merge n} {construct : String} (hp : p.Follows m construct) {keep : Bool}
  (hm : m.Lawful (m.graph.atoms keep))

include hp hm

theorem bindingRequests_eq_requestsFor {r : Fin n} (hr : r ∈ m.representatives) {b : Bool × Fin n}
    (hb : b ∈ animatorBindings true (m.object r).started) :
    p.bindingRequests r b = p.requestsFor r b.2 := by
  have hmerge := hp.merge
  subst hmerge
  obtain ⟨top, a⟩ := b
  obtain ⟨_, horder⟩ := binding_mem_order hm hr hb
  cases hretained : (p.site a).retained with
  | true =>
    rw [requestsFor_of_retained hretained]
    unfold bindingRequests
    split
    · rw [if_pos hretained]
      rfl
    · rfl
  | false =>
    have htransient : p.merge.transient p.merge.representative[a] = true := by
      rw [site, hp.retained] at hretained
      simpa using hretained
    have hself := Merge.eq_of_transient htransient (hm.representative_mem horder) horder rfl
    rw [← hself] at htransient
    -- a transient animation is bound once, at the top or on a controller
    have htop := isAtHand_iff hm hr (Merge.mem_representatives.mpr ⟨horder, hself.symm⟩) htransient
      hb (Merge.mem_representatives.mp hr).1
    have hstarted : (p.merge.object r).started ≠ [] := fun hnil => by
      rw [hnil] at hb
      cases hb
    rw [(Merge.mem_representatives.mp hr).2, Merge.isAtHand, htransient,
      (Object.animators_of_started hstarted).1] at htop
    have hown : ((p.merge.object r).animators.map Animator.animation).contains a = top := by
      rw [Bool.eq_iff_iff]
      simpa using htop
    rw [requestsFor_eq_bindingRequests, hown]

theorem references_factory_eq (hparts : m.PartsRetained) (s : Settings) {r : Fin n}
    (hr : r ∈ m.representatives) :
    (p.factory s r).references = (m.graph.outReferences r).flatMap (p.requestsFor r) := by
  have hmerge := hp.merge
  subst hmerge
  have hown : p.partRequests r (p.merge.object r).parts =
      ((p.merge.object r).parts.map Prod.snd).flatMap (p.requestsFor r) := by
    rw [List.flatMap_map, partRequests, List.map_eq_flatMap]
    refine List.flatMap_congr fun part hpart => ?_
    rw [requestsFor_of_retained]
    · rfl
    · rw [site, hp.retained, hparts r hr part hpart]
      rfl
  have hbound : (animatorBindings true (p.merge.object r).started).flatMap (p.bindingRequests r) =
      (animatorReferences (p.merge.object r).started).flatMap (p.requestsFor r) := by
    rw [← map_snd_animatorBindings true, List.flatMap_map]
    exact List.flatMap_congr fun b hb => hp.bindingRequests_eq_requestsFor hm hr hb
  change _ = (p.merge.object r).references.flatMap (p.requestsFor r)
  rw [Object.references_eq, List.flatMap_append, ← hown, ← hbound, Factory.references,
    creation_references, statements_references, ← List.append_assoc, partRequests, partRequests,
    ← List.map_append, List.take_append_drop]
  rfl

omit hm in
theorem inlineRequest?_eq {r : Fin n} (hr : r ∈ m.representatives) :
    p.inlineRequest? r =
      if m.inlines r then
        (m.object r).source?.map fun source => ⟨r, m.representative[source]⟩
      else none := by
  have hmerge := hp.merge
  subst hmerge
  unfold inlineRequest?
  rw [hp.inline r hr]
  cases p.merge.object r <;> simp [Object.source?]

omit hm in
theorem inlineCall?_eq_none {r : Fin n} (hr : r ∈ m.representatives)
    (hq : p.inlineRequest? r = none) : m.inlineCall? r = none := by
  rw [hp.inlineRequest?_eq hr] at hq
  unfold Merge.inlineCall?
  split
  · rename_i hinlines
    rw [if_pos hinlines, Option.map_eq_none_iff] at hq
    rw [hq, Option.bind_none]
  · rfl

variable (hk : m.graph.Kinded)

include hk

theorem reply_inlineRequest {r : Fin n} (hr : r ∈ m.representatives) {q : Request n}
    (hq : p.inlineRequest? r = some q) {made : Calls}
    (hfresh : ∀ pair ∈ made, pair.1 ≠ m.graph.index r) :
    (p.reply q).run made =
      .ok (⟨q, p.accessOf [] q⟩, made ++ (m.inlineCall? r).toList) ∧
      q.caller = r ∧
      p.sites[r].inline = some (construct ++ " CompositionPath(" ++ (p.accessOf [] q).text ++ ")") := by
  rw [hp.inlineRequest?_eq hr] at hq
  split at hq
  · rename_i hinlines
    obtain ⟨source, hsource, rfl⟩ := Option.map_eq_some_iff.mp hq
    obtain ⟨text, htext⟩ := Option.isSome_iff_exists.mp ((hp.inline r hr).trans hinlines)
    obtain ⟨source', hsource', hrefusal, hspelled⟩ := hp.text r hr text htext
    rw [hsource] at hsource'
    cases hsource'
    obtain ⟨_, hrep, _, _, _, hcanvas⟩ := Merge.source_representative hm hk hr hsource
    have hinline : p.sites[m.representative[source]].inline = none := by
      rw [← Option.not_isSome_iff_eq_none, hp.inline _ hrep, Merge.inlines, hcanvas]
      simp [Object.source?]
    have hrecalls : p.Recalls [⟨r, m.representative[source]⟩] made [] := by
      intro q hq _
      rw [List.mem_singleton.mp hq]
      refine ⟨fun hpair => ?_, fun h => absurd h List.not_mem_nil⟩
      exact absurd (hp.index r) (hfresh _ hpair)
    refine ⟨?_, rfl, htext.trans (congrArg some hspelled)⟩
    rw [reply_run_eq (List.mem_singleton_self _) hrecalls,
      show p.refusal [] ⟨r, m.representative[source]⟩ = none from hrefusal]
    have hcalls : p.isCall [] ⟨r, m.representative[source]⟩ =
        decide (m.graph.index r < m.graph.index m.representative[source]) := by
      rw [isCall, Site.calls, hinline, hp.index, hp.index]
      simp
    rw [Merge.inlineCall?, if_pos hinlines, hsource, Option.bind_some, hcalls, pairOf, hp.index,
      hp.index]
    by_cases hlt : m.graph.index r < m.graph.index m.representative[source]
    · rw [if_pos hlt, if_pos (by simpa using hlt)]
      rfl
    · rw [if_neg hlt, if_neg (by simpa using hlt), Option.toList_none, List.append_nil]
  · cases hq

theorem mapM_reply_inline (rs : List (Fin n)) {made : Calls} (hrs : rs ⊆ m.representatives)
    (hnodup : rs.Nodup) (hfresh : ∀ pair ∈ made, ∀ r ∈ rs, pair.1 ≠ m.graph.index r) :
    ((rs.filterMap p.inlineRequest?).mapM p.reply).run made =
      .ok ((rs.filterMap p.inlineRequest?).map fun q => ⟨q, p.accessOf [] q⟩,
        made ++ rs.filterMap m.inlineCall?) := by
  induction rs generalizing made with
  | nil =>
    rw [List.filterMap_nil, List.mapM_nil, List.filterMap_nil, List.append_nil]
    rfl
  | cons r rs ih =>
    obtain ⟨hr, hrs⟩ := List.cons_subset.mp hrs
    obtain ⟨hnew, hnodup⟩ := List.nodup_cons.mp hnodup
    have hfirst : ∀ pair ∈ made, pair.1 ≠ m.graph.index r := fun pair hpair =>
      hfresh pair hpair r List.mem_cons_self
    have hrest : ∀ pair ∈ made ++ (m.inlineCall? r).toList, ∀ k ∈ rs,
        pair.1 ≠ m.graph.index k := by
      intro pair hpair k hk' heq
      rcases List.mem_append.mp hpair with hpair | hpair
      · exact hfresh pair hpair k (List.mem_cons_of_mem _ hk') heq
      · rw [Option.mem_toList] at hpair
        rw [(Merge.fst_of_inlineCall? hpair).2] at heq
        exact hnew (Graph.index_inj (Merge.mem_representatives.mp hr).1 heq ▸ hk')
    have hcalls : made ++ (r :: rs).filterMap m.inlineCall? =
        (made ++ (m.inlineCall? r).toList) ++ rs.filterMap m.inlineCall? := by
      cases hcall : m.inlineCall? r <;> simp [hcall]
    rw [hcalls]
    cases hq : p.inlineRequest? r with
    | none =>
      have hnone := hp.inlineCall?_eq_none hr hq
      rw [hnone, Option.toList_none, List.append_nil] at hrest ⊢
      rw [List.filterMap_cons_none hq, ih hrs hnodup hrest]
    | some q =>
      have hreply := (hp.reply_inlineRequest hm hk hr hq hfirst).1
      rw [List.filterMap_cons_some hq, List.mapM_cons, run_bind_of_ok _ hreply,
        run_bind_of_ok _ (ih hrs hnodup hrest)]
      rfl

theorem run_inlineRequests :
    (p.inlineRequests.mapM p.reply).run [] =
      .ok (p.inlineRequests.map fun q => ⟨q, p.accessOf [] q⟩, p.calls) := by
  have hall := hp.mapM_reply_inline hm hk m.representatives (List.Subset.refl _)
    hm.nodup_representatives fun pair hpair => absurd hpair List.not_mem_nil
  rw [List.nil_append, ← hp.calls] at hall
  rw [inlineRequests, hp.merge]
  exact hall

theorem inline_of_inlineRequests {q : Request n} (hq : q ∈ p.inlineRequests) :
    q.caller ∉ p.withFactory ∧
      p.sites[q.caller].inline =
        some (construct ++ " CompositionPath(" ++ (p.accessOf [] q).text ++ ")") := by
  rw [inlineRequests, hp.merge] at hq
  obtain ⟨r, hr, hq⟩ := List.mem_filterMap.mp hq
  obtain ⟨_, rfl, htext⟩ := hp.reply_inlineRequest hm hk hr hq fun pair hpair =>
    absurd hpair List.not_mem_nil
  refine ⟨fun hfactory => ?_, htext⟩
  have hinline := hp.inline q.caller hr
  rw [htext, (hp.mem_withFactory.mp hfactory).2.2] at hinline
  cases hinline

end Follows

end Plan

/-- Writing a factory of a compiled scene asks for what its object refers to, in order, and drawing the
plan for what each path written inline is made from. -/
theorem requests_follow_references {json : Option Json} {path : String} {scene : Scene}
    (hload : Scene.load json path = .ok scene) {o : Options} {c : Compilation scene.size}
    (hcompile : compile scene.heap scene.root o = .ok c) :
    (∀ r ∈ c.plan.withFactory,
      Factory.references <$>
          (c.plan.factory ⟨o.durationMs, o.setComments⟩ r).traverse c.plan.reply =
        (((Graph.ofRoot scene.heap scene.root).outReferences r).flatMap
          (c.plan.requestsFor r)).mapM c.plan.reply) ∧
      (∃ program, c.plan.program ⟨o.durationMs, o.setComments⟩ = .ok program ∧
        c.code = program.code o ∧ program.factories.map Prod.fst = c.plan.withFactory ∧
        ∀ entry ∈ program.factories, entry.2.references.map Reply.toRequest =
          ((Graph.ofRoot scene.heap scene.root).outReferences entry.1).flatMap
            (c.plan.requestsFor entry.1)) ∧
      ∃ replies, (c.plan.inlineRequests.mapM c.plan.reply).run [] = .ok (replies, c.plan.calls) ∧
        ∀ reply ∈ replies, reply.caller ∉ c.plan.withFactory ∧
          c.plan.sites[reply.caller].inline = some
            (o.dialect.newOperator ++ " CompositionPath(" ++ reply.access.text ++ ")") := by
  obtain ⟨program, h⟩ := Scene.exists_writes hload hcompile
  have hm := h.lawful
  have hrequests : ∀ r ∈ program.plan.withFactory,
      (program.plan.factory ⟨o.durationMs, o.setComments⟩ r).references =
        ((Graph.ofRoot scene.heap scene.root).outReferences r).flatMap
          (program.plan.requestsFor r) := fun r hr =>
    h.follows.references_factory_eq hm h.partsRetained _ (h.follows.mem_withFactory.mp hr).1
  have hfst := h.map_fst_factories
  rw [← h.plan] at hfst ⊢
  refine ⟨fun r hr => ?_, ⟨program, h.plan ▸ h.answered, h.code, hfst, fun entry hentry => ?_⟩, ?_⟩
  · rw [Factory.references_traverse_append, hrequests r hr]
  · rw [h.map_toRequest_references hentry]
    exact hrequests _ (hfst ▸ List.mem_map_of_mem hentry)
  · refine ⟨_, h.follows.run_inlineRequests hm h.kinded, fun reply hreply => ?_⟩
    obtain ⟨q, hq, rfl⟩ := List.mem_map.mp hreply
    exact h.follows.inline_of_inlineRequests hm h.kinded hq

/-- Two transient animations that refer to the root, one bound on the root and one on a controller, and
a path that is written inline. -/
def nestedBindingDocument : Option Json :=
  Scene.documentOf [
    ("root", .object [("type", .string "ShapeVisual"), ("shapes", .array [.string "s"]),
      ("animators", .array [
        .object [("property", .string "Opacity"), ("animation", .string "e")],
        .object [("property", .string "Scale"), ("animation", .string "k"),
          ("controller", .object [("animators", .array [
            .object [("property", .string "Progress"), ("animation", .string "f")]])])]])]),
    ("s", .object [("type", .string "CompositionSpriteShape"), ("geometry", .string "g")]),
    ("g", .object [("type", .string "CompositionPathGeometry"), ("path", .string "p")]),
    ("p", .object [("type", .string "CompositionPath"), ("source", .string "q")]),
    ("q", .object [("type", .string "CanvasGeometry"), ("geometryType", .string "Ellipse"),
      ("x", .number 0), ("y", .number 0), ("radiusX", .number 1), ("radiusY", .number 2)]),
    ("k", .object [("type", .string "ScalarKeyFrameAnimation"), ("duration", .number 1000),
      ("keyFrames", .array [
        .object [("progress", .number 0), ("value", .number 1), ("easing", .string "l")]])]),
    ("l", .object [("type", .string "LinearEasingFunction")]),
    ("e", .object [("type", .string "ExpressionAnimation"), ("expression", .string "a"),
      ("referenceParameters", .object [("self", .string "root"), ("shape", .string "s")])]),
    ("f", .object [("type", .string "ExpressionAnimation"), ("expression", .string "b"),
      ("referenceParameters", .object [("host", .string "root")])])]

theorem requests_nestedBinding :
    ∃ scene, Scene.load nestedBindingDocument "scene.json" = .ok scene ∧
      ∃ c, compile scene.heap scene.root
          { className := "Scene", width := 100, height := 100, durationMs := 1000 } = .ok c ∧
        ((∃ i ∈ ((Graph.ofRoot scene.heap scene.root).merged false).representatives,
            ((Graph.ofRoot scene.heap scene.root).merged false).inlines i = true) ∧
          ∃ e ∈ (Graph.ofRoot scene.heap scene.root).outReferences scene.root,
            ∃ f ∈ (Graph.ofRoot scene.heap scene.root).outReferences scene.root,
              scene.root ∈ (Graph.ofRoot scene.heap scene.root).outReferences e ∧
              scene.root ∈ (Graph.ofRoot scene.heap scene.root).outReferences f ∧
              ((Graph.ofRoot scene.heap scene.root).merged false).isAtHand e scene.root = true ∧
              ((Graph.ofRoot scene.heap scene.root).merged false).transient f = true ∧
              ((Graph.ofRoot scene.heap scene.root).merged false).isAtHand f scene.root = false) ∧
        (∃ program, c.plan.program ⟨1000, false⟩ = .ok program ∧
          ∀ entry ∈ program.factories, entry.2.references.map Reply.toRequest =
            ((Graph.ofRoot scene.heap scene.root).outReferences entry.1).flatMap
              (c.plan.requestsFor entry.1)) ∧
        ∃ replies, (c.plan.inlineRequests.mapM c.plan.reply).run [] =
          .ok (replies, c.plan.calls) := by
  refine Scene.exists_compiles_and (by decide +kernel) fun scene hload c hcompile => ?_
  obtain ⟨_, ⟨program, hprogram, _, _, hrequests⟩, replies, hreplies, _⟩ :=
    requests_follow_references hload hcompile
  exact ⟨⟨program, hprogram, hrequests⟩, replies, hreplies⟩

end SceneCompiler
