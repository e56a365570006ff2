import SceneCompiler.Proofs.Constructor.Refusals

/-!
# Faults of a compilation

A scene that loads compiles, unless an animator of an easing function leads out of the graph, a
parameter stands for a transient animation, or an expression animation is undercounted.  The plan
finds the first, answering the requests of the factories the others.
-/

namespace SceneCompiler

variable {n : Nat}

def Graph.merged (g : Graph n) (keepComments : Bool) : Merge n :=
  Merge.ofGraph g (g.atoms keepComments)

def Graph.EasingBindsOutside (g : Graph n) : Prop :=
  ∃ i ∈ g.order, (g.object i).isEasing = true ∧
    ∃ a ∈ animatorReferences (g.object i).animators, a ∉ g.order

instance (g : Graph n) : Decidable g.EasingBindsOutside :=
  inferInstanceAs (Decidable (∃ i ∈ g.order, _ ∧ ∃ a ∈ _, _))

namespace Merge

def TransientParameter (m : Merge n) : Prop :=
  ∃ i ∈ m.graph.order, ∃ k ∈ (m.object i).parameterTargets,
    m.transient m.representative[k] = true

instance (m : Merge n) : Decidable m.TransientParameter :=
  inferInstanceAs (Decidable (∃ i ∈ m.graph.order, ∃ k ∈ _, _))

/-- What a fault of a compilation says about the merged graph. -/
def Explains (m : Merge n) : Fault → Prop
  | .outsideGraph _ => m.graph.EasingBindsOutside
  | .noFactory _ _ => m.TransientParameter
  | .duplicateCall _ _ => ∃ j ∈ m.representatives, m.Undercounted j
  | .missingStorage _ _ =>
    m.TransientParameter ∨ ∃ j ∈ m.representatives, m.Undercounted j
  | _ => False

theorem merged_lawful {g : Graph n} (hg : g.Ordered) (keep : Bool) :
    (g.merged keep).Lawful ((g.merged keep).graph.atoms keep) :=
  ofGraph_lawful g _ hg

variable {m : Merge n} {keep : Bool} (hm : m.Lawful (m.graph.atoms keep))

include hm

theorem easingBindsOutside_iff :
    m.graph.EasingBindsOutside ↔ ∃ i ∈ m.bound, i ∉ m.graph.order := by
  have hbound : ∀ a, a ∈ m.bound ↔
      ∃ r ∈ m.owners, a ∈ animatorReferences (m.object r).animators :=
    fun a => List.mem_flatMap
  constructor
  · rintro ⟨i, hi, heasing, a, ha, hout⟩
    refine ⟨a, (hbound a).mpr ⟨i, mem_owners.mpr ⟨mem_representatives.mpr ⟨hi, ?_⟩, ?_⟩, ha⟩, hout⟩
    · refine (eq_of_animators hm hi (hm.mem_order i hi) (hm.idem i hi).symm fun hnil => ?_).symm
      change a ∈ animatorReferences (m.object i).animators at ha
      rw [hnil] at ha
      cases ha
    · exact Object.not_expression_of_isEasing heasing
  · rintro ⟨a, ha, hout⟩
    obtain ⟨r, hr, ha⟩ := (hbound a).mp ha
    obtain ⟨hrep, hexpression⟩ := mem_owners.mp hr
    have hmem := (mem_representatives.mp hrep).1
    refine ⟨r, hmem, ?_, a, ha, hout⟩
    by_contra heasing
    refine hout (hm.ordered.closed r hmem ?_)
    change a ∈ (m.object r).references
    have heasing' : (m.object r).isEasing = false := Bool.eq_false_iff.mpr heasing
    rw [Object.references_eq, Object.started_eq, heasing', hexpression]
    exact List.mem_append_right _ ha

theorem partsRetained_iff (hk : m.graph.Kinded) : m.PartsRetained ↔ ¬m.TransientParameter := by
  constructor
  · rintro hparts ⟨i, hi, k, hk', htransient⟩
    have hpart := Object.mem_parameterTargets.mp hk'
    by_cases heq : m.representative[i] = i
    · rw [hparts i (mem_representatives.mpr ⟨hi, heq⟩) _ hpart] at htransient
      cases htransient
    · -- a representative of another object has no animators, so its targets are parts
      have hrep := hm.representative_mem hi
      have hmem : m.representative[k] ∈ m.targets m.representative[i] := by
        rw [hm.targets_eq hi]
        exact List.mem_map.mpr ⟨k, Object.parameterTargets_subset _ hk', rfl⟩
      have hanimators := animators_of_merged hm (hm.mem_order i hi) hi (hm.idem i hi) heq
      rw [targets_eq_append, Object.started_eq, hanimators, ite_self] at hmem
      simp only [animatorReferences, List.map_nil, List.append_nil] at hmem
      obtain ⟨part, hpart', hk''⟩ := List.mem_map.mp hmem
      rw [← hk'', hparts _ hrep part hpart'] at htransient
      cases htransient
  · intro hnone r hr part hpart
    by_contra htransient
    have hcallee : m.transient m.representative[part.2] = true := by simpa using htransient
    have hmem := (mem_representatives.mp hr).1
    exact hnone ⟨r, hmem, part.2, mem_parameterTargets_of_expression hm hk hmem hpart
      (transient_spec hcallee).1, hcallee⟩

end Merge

namespace Graph

variable {g : Graph n} (hg : g.Ordered) (hk : g.Kinded) (o : Options)

include hg

theorem compile_of_easing (h : g.EasingBindsOutside) :
    ∃ type, g.compile o = .error (.outsideGraph type) := by
  have hm := Merge.merged_lawful hg o.setComments
  obtain ⟨type, hnamed⟩ := Plan.named_error
    (fun r => Naming.baseName (g.merged o.setComments).object ((g.merged o.setComments).object r))
    o.dialect.newOperator ((Merge.easingBindsOutside_iff hm).mp h)
  refine ⟨type, ?_⟩
  change (Plan.ofMerge (g.merged o.setComments) o.dialect.newOperator).bind _ = _
  rw [Plan.ofMerge, hnamed]
  rfl

include hk

theorem compile_of_follows (h : ¬g.EasingBindsOutside) :
    ∃ p, p.Follows (g.merged o.setComments) o.dialect.newOperator ∧
      g.compile o = (fun result => ⟨p, result.2, Program.code ⟨p, result.1⟩ o⟩) <$>
        (p.factories ⟨o.durationMs, o.setComments⟩).run p.calls := by
  have hm := Merge.merged_lawful hg o.setComments
  have hfound : ∀ i ∈ (g.merged o.setComments).bound, i ∈ g.order := by
    intro i hi
    by_contra hout
    exact h ((Merge.easingBindsOutside_iff hm).mpr ⟨i, hi, hout⟩)
  obtain ⟨p, hnamed, hp⟩ := Plan.named_follows hm hk
    (fun r => Naming.baseName (g.merged o.setComments).object ((g.merged o.setComments).object r))
    o.dialect.newOperator hfound
  have hcompile : g.compile o = p.write o (p.method o) := by
    change (Plan.ofMerge (g.merged o.setComments) o.dialect.newOperator).bind _ = _
    rw [Plan.ofMerge, hnamed]
    rfl
  refine ⟨p, hp, ?_⟩
  have hvisual : (p.merge.object p.root).isVisual = true := by
    have hroot := Merge.representative_root hm hk
    have hmerge := hp.merge
    simp only [Plan.root, hmerge, hroot]
    exact hk.root
  rw [hcompile, Plan.write_eq, if_pos hvisual]

theorem compile_ok_iff :
    (∃ c, g.compile o = .ok c) ↔
      ¬g.EasingBindsOutside ∧ ¬(g.merged o.setComments).TransientParameter ∧
        ∀ j ∈ (g.merged o.setComments).representatives,
          ¬(g.merged o.setComments).Undercounted j := by
  have hm := Merge.merged_lawful hg o.setComments
  rw [← Merge.partsRetained_iff hm hk]
  by_cases heasing : g.EasingBindsOutside
  · obtain ⟨type, herror⟩ := compile_of_easing hg o heasing
    simp [herror, heasing]
  · obtain ⟨p, hp, hcompile⟩ := compile_of_follows hg hk o heasing
    have hiff := hp.firstRefusal_eq_none_iff hm hk ⟨o.durationMs, o.setComments⟩
    have hinj := hp.emission_inj hm ⟨o.durationMs, o.setComments⟩
    have hrecalls := hp.recalls_nil hm ⟨o.durationMs, o.setComments⟩
    rw [← hiff, hcompile]
    cases hrefusal : p.firstRefusal [] (p.emission ⟨o.durationMs, o.setComments⟩ p.withFactory) with
    | none =>
      obtain ⟨factories, made, hrun⟩ :=
        Plan.factories_run hinj (List.Subset.refl _) hrecalls hrefusal
      simp [hrun, heasing]
    | some fault =>
      have hrun := Plan.factories_error hinj (List.Subset.refl _) hrecalls hrefusal
      simp [hrun]

theorem explains_of_compile_error {fault : Fault} (h : g.compile o = .error fault) :
    (g.merged o.setComments).Explains fault := by
  have hm := Merge.merged_lawful hg o.setComments
  by_cases heasing : g.EasingBindsOutside
  · obtain ⟨type, herror⟩ := compile_of_easing hg o heasing
    rw [herror] at h
    cases h
    exact heasing
  · obtain ⟨p, hp, hcompile⟩ := compile_of_follows hg hk o heasing
    have hinj := hp.emission_inj hm ⟨o.durationMs, o.setComments⟩
    have hrecalls := hp.recalls_nil hm ⟨o.durationMs, o.setComments⟩
    rw [hcompile] at h
    cases hrefusal : p.firstRefusal [] (p.emission ⟨o.durationMs, o.setComments⟩ p.withFactory) with
    | none =>
      obtain ⟨factories, made, hrun⟩ :=
        Plan.factories_run hinj (List.Subset.refl _) hrecalls hrefusal
      rw [hrun] at h
      cases h
    | some refused =>
      rw [Plan.factories_error hinj (List.Subset.refl _) hrecalls hrefusal] at h
      cases h
      have hparts := Merge.partsRetained_iff hm hk
      rcases hp.firstRefusal_cases hm hk hrefusal with
        ⟨_, _, rfl, hnot⟩ | ⟨_, _, rfl, hunder⟩ | ⟨_, _, rfl, hunder⟩
      · exact not_not.mp (hparts.not.mp hnot)
      · exact hunder
      · by_cases htransient : (g.merged o.setComments).TransientParameter
        · exact .inl htransient
        · exact .inr (hunder (hparts.mpr htransient))

def Sound (g : Graph n) (keepComments : Bool) : Prop :=
  ¬g.EasingBindsOutside ∧ ¬(g.merged keepComments).TransientParameter ∧
    ∀ j ∈ (g.merged keepComments).representatives, ¬(g.merged keepComments).Undercounted j

instance (g : Graph n) (keepComments : Bool) : Decidable (g.Sound keepComments) :=
  inferInstanceAs (Decidable (_ ∧ _ ∧ ∀ j ∈ _, ¬_))

end Graph

section Evaluated

variable {json : Option Json} {path : String} {o : Options} {P : Scene → Prop} [DecidablePred P]
  {Q : (scene : Scene) → Compilation scene.size → Prop}

/-- A document loads to a scene that compiles, with what follows from a property of the scene, if
evaluating the conditions says so. -/
theorem Scene.exists_compiles
    (h : ((Scene.load json path).toOption.any fun scene => decide (
      (Graph.ofRoot scene.heap scene.root).Sound o.setComments ∧ P scene)) = true)
    (hQ : ∀ scene, Scene.load json path = .ok scene → ∀ c,
      compile scene.heap scene.root o = .ok c → P scene → Q scene c) :
    ∃ scene, Scene.load json path = .ok scene ∧
      ∃ c, compile scene.heap scene.root o = .ok c ∧ Q scene c := by
  obtain ⟨scene, hload, hsound, hP⟩ := Scene.exists_of_load h
  obtain ⟨c, hcompile⟩ := (Graph.compile_ok_iff (Graph.ofRoot_ordered scene.heap scene.root)
    (Scene.load_kinded hload) o).mpr hsound
  exact ⟨scene, hload, c, hcompile, hQ scene hload c hcompile hP⟩

theorem Scene.exists_compiles_and
    (h : ((Scene.load json path).toOption.any fun scene => decide (
      (Graph.ofRoot scene.heap scene.root).Sound o.setComments ∧ P scene)) = true)
    (hQ : ∀ scene, Scene.load json path = .ok scene → ∀ c,
      compile scene.heap scene.root o = .ok c → Q scene c) :
    ∃ scene, Scene.load json path = .ok scene ∧
      ∃ c, compile scene.heap scene.root o = .ok c ∧ P scene ∧ Q scene c :=
  Scene.exists_compiles h fun scene hload c hcompile hP => ⟨hP, hQ scene hload c hcompile⟩

end Evaluated

/-- A scene that loads fails to compile exactly if an animator of an easing function leads out of its
graph, a parameter stands for a transient animation, or an expression animation is undercounted; and
the fault tells which. -/
theorem compile_fails_iff {json : Option Json} {path : String} {scene : Scene}
    (hload : Scene.load json path = .ok scene) (o : Options) :
    let g := Graph.ofRoot scene.heap scene.root
    let m := g.merged o.setComments
    ((∃ fault, compile scene.heap scene.root o = .error fault) ↔
      g.EasingBindsOutside ∨ m.TransientParameter ∨ ∃ j ∈ m.representatives, m.Undercounted j) ∧
      ∀ fault, compile scene.heap scene.root o = .error fault → m.Explains fault := by
  intro g m
  have hg : g.Ordered := Graph.ofRoot_ordered scene.heap scene.root
  have hk : g.Kinded := Scene.load_kinded hload
  refine ⟨?_, fun fault hfault => Graph.explains_of_compile_error hg hk o hfault⟩
  have hiff : (∃ c, g.compile o = .ok c) ↔ ¬g.EasingBindsOutside ∧ ¬m.TransientParameter ∧
      ∀ j ∈ m.representatives, ¬m.Undercounted j := Graph.compile_ok_iff hg hk o
  have hfails : (∃ fault, compile scene.heap scene.root o = .error fault) ↔
      ¬∃ c, g.compile o = .ok c := by
    change (∃ fault, g.compile o = .error fault) ↔ _
    cases g.compile o <;> simp
  rw [hfails, hiff]
  simp only [not_and_or, not_not, not_forall, exists_prop]

/-- An animation that refers twice to an expression animation which lists it among its animators,
though it is not the one that starts it. -/
def undercountedDocument : Option Json :=
  Scene.documentOf [
    ("root", .object [("type", .string "ContainerVisual"),
      ("animators", .array [
        .object [("property", .string "Opacity"), ("animation", .string "e")]])]),
    ("e", .object [("type", .string "ExpressionAnimation"), ("expression", .string "a"),
      ("referenceParameters", .object [("p", .string "j"), ("q", .string "j")])]),
    ("j", .object [("type", .string "ExpressionAnimation"), ("expression", .string "b"),
      ("animators", .array [.object [("property", .string "X"), ("animation", .string "e")]])])]

theorem compile_fails_undercounted :
    ∃ scene, Scene.load undercountedDocument "scene.json" = .ok scene ∧
      ¬(Graph.ofRoot scene.heap scene.root).EasingBindsOutside ∧
      ¬((Graph.ofRoot scene.heap scene.root).merged false).TransientParameter ∧
      ∃ fault, compile scene.heap scene.root
        { className := "Scene", width := 100, height := 100, durationMs := 1000 } =
          .error fault := by
  obtain ⟨scene, hload, heasing, hparameter, hunder⟩ :
      ∃ scene, Scene.load undercountedDocument "scene.json" = .ok scene ∧
        ¬(Graph.ofRoot scene.heap scene.root).EasingBindsOutside ∧
        ¬((Graph.ofRoot scene.heap scene.root).merged false).TransientParameter ∧
        ∃ j ∈ ((Graph.ofRoot scene.heap scene.root).merged false).representatives,
          ((Graph.ofRoot scene.heap scene.root).merged false).Undercounted j :=
    Scene.exists_of_load (by decide +kernel)
  exact ⟨scene, hload, heasing, hparameter,
    (compile_fails_iff hload _).1.mpr (.inr (.inr hunder))⟩

end SceneCompiler
