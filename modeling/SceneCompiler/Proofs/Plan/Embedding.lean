import SceneCompiler.Compile
import SceneCompiler.Proofs.Factory.Traversal
import SceneCompiler.Proofs.Merge.Embedding

/-!
# The plan of a graph inside another

Every decision about an object is the same where the object is found at another place.
-/

namespace SceneCompiler

/-- Both computations fail alike, or their results are related. -/
inductive Agree {ε α β : Type} (R : α → β → Prop) : Except ε α → Except ε β → Prop
  | ok {a : α} {b : β} : R a b → Agree R (.ok a) (.ok b)
  | error (e : ε) : Agree R (.error e) (.error e)

namespace Agree

variable {ε α β γ δ : Type} {R : α → β → Prop} {S : γ → δ → Prop}

theorem bind {x : Except ε α} {y : Except ε β} {f : α → Except ε γ} {g : β → Except ε δ}
    (h : Agree R x y) (hfg : ∀ a b, R a b → Agree S (f a) (g b)) : Agree S (x >>= f) (y >>= g) := by
  cases h with
  | ok hab => exact hfg _ _ hab
  | error e => exact .error e

theorem foldlM {ι κ : Type} {f : α → ι → Except ε α} {g : β → κ → Except ε β} {φ : ι → κ}
    (hstep : ∀ a b i, R a b → Agree R (f a i) (g b (φ i))) (is : List ι) {a : α} {b : β}
    (h : R a b) : Agree R (is.foldlM f a) ((is.map φ).foldlM g b) := by
  induction is generalizing a b with
  | nil => exact .ok h
  | cons i is ih =>
    rw [List.map_cons, List.foldlM_cons, List.foldlM_cons]
    exact (hstep a b i h).bind fun _ _ => ih

end Agree

variable {n k : Nat} {φ : Fin n → Fin k}

/-! ## Outlooks -/

namespace Merge.Embeds

variable {m : Merge n} {m' : Merge k} (h : m.Embeds m' φ)

include h

theorem started (r : Fin n) : (m'.object (φ r)).animators.map Animator.animation =
    ((m.object r).animators.map Animator.animation).map φ := by
  rw [h.object_eq, Object.animators_map, mapAnimators_eq_map, List.map_map, List.map_map]
  exact List.map_congr_left fun a _ => Naming.animation_map φ a

theorem bound : m'.bound = m.bound.map φ := by
  rw [Merge.bound, Merge.bound, h.representatives, List.filter_map, List.flatMap_map,
    List.map_flatMap]
  congr 1
  · funext r
    rw [h.object_eq, Object.animators_map, animatorReferences_map]
  · congr 1
    funext r
    rw [Function.comp_apply, h.object_eq, Object.isExpressionAnimation_map]

theorem bindings : m'.bindings = List.map φ <$> m.bindings := by
  have hfind (i : Fin n) : m'.graph.find (φ i) = m.graph.find i := by
    rw [Graph.find, Graph.find, h.contains, h.index, h.onGraph.object_eq, Object.typeName_map]
  rw [Merge.bindings, Merge.bindings, h.bound, List.mapM_map]
  refine mapM_map (fun i => ?_) m.bound
  rw [Function.comp_apply, hfind, h.representative]
  cases m.graph.find i <;> rfl

theorem isTransient (bindings : List (Fin n)) (r : Fin n) :
    m'.isTransient (bindings.map φ) (φ r) = m.isTransient bindings r := by
  rw [Merge.isTransient, h.object_eq, Object.isExpressionAnimation_map, h.groupSize,
    List.count_map_of_injective _ _ h.injective]
  rfl

end Merge.Embeds

namespace Outlook

structure Embeds (o : Outlook n) (o' : Outlook k) (φ : Fin n → Fin k) : Prop where
  merge : o.merge.Embeds o'.merge φ
  index : ∀ i : Fin n, o'.index[φ i] = o.index[i]
  transient : ∀ i : Fin n, o'.transient[φ i] = o.transient[i]
  inbound : ∀ i : Fin n, o'.inbound[φ i] = o.inbound[i].map φ

theorem agree_ofMerge {m : Merge n} {m' : Merge k} (h : m.Embeds m' φ) :
    Agree (Embeds · · φ) (ofMerge m) (ofMerge m') := by
  rw [ofMerge, ofMerge, h.bindings]
  cases m.bindings with
  | error fault => exact .error fault
  | ok bindings =>
    have htransient (i : Fin n) : (Vector.ofFn (m'.isTransient (bindings.map φ)))[φ i] =
        (Vector.ofFn (m.isTransient bindings))[i] := by
      simp [h.isTransient]
    refine .ok ⟨h, fun i => ?_, htransient, fun i => ?_⟩
    · simp [h.index]
    · simp only [getElem_place, Vector.getElem_ofFn, Fin.eta]
      rw [countedReferences, countedReferences, h.inReferences, List.filter_map]
      congr 2
      funext j
      rw [Function.comp_apply, htransient, h.started, contains_map h.injective]

namespace Embeds

variable {o : Outlook n} {o' : Outlook k} (h : o.Embeds o' φ)

include h

theorem retained : o'.retained = o.retained.map φ := by
  rw [Outlook.retained, h.merge.representatives, List.filter_map]
  congr 2
  funext r
  rw [Function.comp_apply, h.transient]

theorem isRoot (r : Fin n) : o'.isRoot (φ r) = o.isRoot r := by
  rw [Outlook.isRoot, h.merge.root, beq_of_injective h.merge.injective]
  rfl

theorem stored (r : Fin n) : o'.stored (φ r) = o.stored r := by
  simp only [Outlook.stored, h.inbound, h.isRoot, h.transient, List.length_map]

theorem names (baseName : Fin n → String) (baseName' : Fin k → String)
    (hname : ∀ r, baseName' (φ r) = baseName r) :
    o'.names baseName' = (o.names baseName).map fun e => (φ e.1, e.2) := by
  have hbase : o'.retained.map baseName' = o.retained.map baseName := by
    rw [h.retained, List.map_map]
    exact List.map_congr_left fun r _ => hname r
  rw [Outlook.names, hbase, h.retained, h.merge.root, List.zip_map_left]
  rfl

theorem site {names : List (Fin n × String)} (r : Fin n) :
    o'.site (names.map fun e => (φ e.1, e.2)) (φ r) = o.site names r := by
  simp only [Outlook.site, h.index, h.merge.object_eq, Object.typeName_map, h.transient, h.stored,
    lookup_map_key h.merge.injective]

theorem inlineSource? (r : Fin n) : o'.inlineSource? (φ r) = (o.inlineSource? r).map φ := by
  rw [Outlook.inlineSource?, Outlook.inlineSource?, h.merge.object_eq, h.inbound]
  cases o.merge.object r with
  | path description source =>
    simp only [Object.map, List.length_map]
    split <;> rfl
  | _ => rfl

end Embeds

end Outlook

/-! ## Plans -/

namespace Plan

structure Embeds (p : Plan n) (p' : Plan k) (φ : Fin n → Fin k) : Prop where
  outlook : p.outlook.Embeds p'.outlook φ
  sites : ∀ r : Fin n, p'.sites[φ r] = p.sites[r]
  calls : p'.calls = p.calls

theorem Embeds.merge {p : Plan n} {p' : Plan k} (h : p.Embeds p' φ) :
    p.merge.Embeds p'.merge φ :=
  h.outlook.merge

theorem Embeds.site {p : Plan n} {p' : Plan k} (h : p.Embeds p' φ) (i : Fin n) :
    p'.site (φ i) = p.site i := by
  rw [Plan.site, Plan.site, h.merge.representative, h.sites]

theorem agree_inlinePath {p : Plan n} {p' : Plan k} (h : p.Embeds p' φ) (construct : String)
    (r : Fin n) :
    Agree (Embeds · · φ) (inlinePath construct p r) (inlinePath construct p' (φ r)) := by
  rw [inlinePath, inlinePath, h.outlook.inlineSource?]
  cases p.outlook.inlineSource? r with
  | none => exact .ok h
  | some source =>
    simp only [Option.map_some, h.site, h.calls]
    cases resolve p.calls (p.site r) (p.site source) with
    | error fault => exact .error fault
    | ok result =>
      refine .ok ⟨h.outlook, fun i => ?_, rfl⟩
      by_cases hi : i = r
      · subst hi
        have hsite := h.sites i
        simp_all
      · have hval : (r : Nat) ≠ i := fun heq => hi (Fin.ext heq.symm)
        have hval' : (φ r : Nat) ≠ φ i := fun heq =>
          hi (h.merge.injective (Fin.ext heq)).symm
        have hsite := h.sites i
        simp_all

theorem agree_ofMerge {m : Merge n} {m' : Merge k} (h : m.Embeds m' φ) (construct : String) :
    Agree (Embeds · · φ) (ofMerge m construct) (ofMerge m' construct) := by
  refine (Outlook.agree_ofMerge h).bind fun o o' ho => ?_
  have hnames := ho.names (fun r => Naming.baseName m.object (m.object r))
    (fun r => Naming.baseName m'.object (m'.object r)) fun r => by
      rw [h.object_eq, Naming.baseName_map φ h.object_eq]
  rw [ho.retained, hnames]
  refine Agree.foldlM (fun p p' r hp => agree_inlinePath hp construct r) o.retained
    ⟨ho, fun r => ?_, rfl⟩
  simp [ho.site]

namespace Embeds

variable {p : Plan n} {p' : Plan k} (h : p.Embeds p' φ)

include h

theorem withFactory : p'.withFactory = p.withFactory.map φ := by
  have hfilter : p'.merge.representatives.filter (fun r => p'.sites[r].hasFactory) =
      (p.merge.representatives.filter fun r => p.sites[r].hasFactory).map φ := by
    rw [h.merge.representatives, List.filter_map]
    congr 2
    funext r
    rw [Function.comp_apply, h.sites]
  rw [Plan.withFactory, Plan.withFactory, hfilter]
  refine (List.map_mergeSort fun a _ b _ => ?_).symm
  rw [h.sites, h.sites]

theorem withField : p'.withField = p.withField.map φ := by
  rw [Plan.withField, h.withFactory, List.filter_map]
  congr 2
  funext r
  rw [Function.comp_apply, h.sites]

theorem root : p'.root = φ p.root := by
  rw [Plan.root, Plan.root, h.merge.root, h.merge.representative]

end Embeds

end Plan

end SceneCompiler
