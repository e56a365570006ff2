import SceneCompiler.Plan
import SceneCompiler.Proofs.Factory.Traversal
import SceneCompiler.Proofs.Model.Description

/-!
# Plans under other descriptions

Drawing up a plan never looks at the descriptions of objects, apart from comments that count.  So the
plan of a graph under other descriptions is the plan of the graph, with the descriptions changed.
-/

namespace SceneCompiler

variable {n : Nat} (f : Description → Description)

def Heap.describe (heap : Heap n) : Heap n :=
  heap.map (Object.describe f)

def Graph.describe (g : Graph n) : Graph n :=
  { g with heap := g.heap.describe f }

def Merge.describe (m : Merge n) : Merge n :=
  { m with graph := m.graph.describe f }

def Outlook.describe (o : Outlook n) : Outlook n :=
  { o with merge := o.merge.describe f }

def Plan.describe (p : Plan n) : Plan n :=
  { p with outlook := p.outlook.describe f }

@[simp] theorem Heap.getElem_describe (heap : Heap n) (i : Fin n) :
    (heap.describe f)[i] = heap[i].describe f := by
  simp [Heap.describe]

/-! ## Graphs -/

namespace Graph

theorem ofRoot_describe (heap : Heap n) (root : Fin n) :
    ofRoot (heap.describe f) root = (ofRoot heap root).describe f := by
  have hreferences : (fun i : Fin n => (heap.describe f)[i].references) =
      fun i : Fin n => heap[i].references := by
    funext i
    rw [Heap.getElem_describe, Object.references_describe]
  simp only [ofRoot, hreferences]
  rfl

variable (g : Graph n)

@[simp] theorem object_describe (i : Fin n) : (g.describe f).object i = (g.object i).describe f :=
  Heap.getElem_describe f g.heap i

@[simp] theorem outReferences_describe (i : Fin n) :
    (g.describe f).outReferences i = g.outReferences i := by
  simp [outReferences]

@[simp] theorem find_describe (i : Fin n) : (g.describe f).find i = g.find i := by
  rw [find, object_describe, Object.typeName_describe]
  rfl

end Graph

/-! ## Groups -/

theorem Grouping.label_describe (heap : Heap n) (atoms : Fin n → Option (List Atom)) (fuel : Nat) :
    label (heap.describe f) atoms fuel = label heap atoms fuel := by
  induction fuel with
  | zero => rfl
  | succ fuel ih =>
    funext active s i
    rw [label, label, ih, Heap.getElem_describe, Object.references_describe]

namespace Merge

theorem ofGraph_describe (g : Graph n) {keep : Bool}
    (hf : keep = true → ∀ d, (f d).comment = d.comment) :
    ofGraph (g.describe f) ((g.describe f).atoms keep) = (ofGraph g (g.atoms keep)).describe f := by
  have hatoms : (g.describe f).atoms keep = g.atoms keep := by
    funext i
    rw [Graph.atoms, Graph.object_describe, Object.atoms?_describe f _ hf]
    rfl
  have hgrouping : Grouping.ofGraph (g.describe f) (g.atoms keep) =
      Grouping.ofGraph g (g.atoms keep) := by
    simp only [Grouping.ofGraph, Graph.describe, Grouping.label_describe]
  rw [hatoms, ofGraph, hgrouping]
  rfl

variable (m : Merge n)

@[simp] theorem object_describe (i : Fin n) : (m.describe f).object i = (m.object i).describe f :=
  Graph.object_describe f m.graph i

@[simp] theorem representatives_describe : (m.describe f).representatives = m.representatives :=
  rfl

@[simp] theorem inReferences_describe (r : Fin n) :
    (m.describe f).inReferences r = m.inReferences r := by
  simp only [inReferences, representatives_describe]
  congr 1
  funext i
  rw [show (m.describe f).graph.outReferences i = m.graph.outReferences i from
    Graph.outReferences_describe f m.graph i]
  rfl

@[simp] theorem bound_describe : (m.describe f).bound = m.bound := by
  simp [bound]

theorem bindings_describe : (m.describe f).bindings = m.bindings := by
  rw [bindings, bindings, bound_describe]
  congr 1
  funext i
  rw [show (m.describe f).graph.find i = m.graph.find i from Graph.find_describe f m.graph i]
  rfl

theorem isTransient_describe (bindings : List (Fin n)) :
    (m.describe f).isTransient bindings = m.isTransient bindings := by
  funext r
  rw [isTransient, object_describe, Object.isExpressionAnimation_describe]
  rfl

end Merge

/-! ## Outlooks -/

namespace Outlook

theorem ofMerge_describe (m : Merge n) :
    ofMerge (m.describe f) = Outlook.describe f <$> ofMerge m := by
  have hcounted (transient : Vector Bool n) :
      countedReferences (m.describe f) transient = countedReferences m transient := by
    funext r
    simp [countedReferences]
  rw [ofMerge, ofMerge, Merge.bindings_describe]
  cases m.bindings with
  | error fault => rfl
  | ok bindings =>
    simp only [Merge.isTransient_describe, hcounted]
    rfl

variable (o : Outlook n)

theorem site_describe (names : List (Fin n × String)) :
    (o.describe f).site names = o.site names := by
  funext r
  rw [site, show (o.describe f).merge.object r = (o.merge.object r).describe f from
    Merge.object_describe f o.merge r, Object.typeName_describe]
  rfl

theorem inlineSource?_describe (r : Fin n) :
    (o.describe f).inlineSource? r = o.inlineSource? r := by
  rw [inlineSource?, inlineSource?, show (o.describe f).merge.object r =
    (o.merge.object r).describe f from Merge.object_describe f o.merge r]
  cases o.merge.object r <;> rfl

end Outlook

/-! ## Plans -/

namespace Plan

@[simp] theorem sites_describe (p : Plan n) : (p.describe f).sites = p.sites :=
  rfl

@[simp] theorem calls_describe (p : Plan n) : (p.describe f).calls = p.calls :=
  rfl

@[simp] theorem merge_describe (p : Plan n) : (p.describe f).merge = p.merge.describe f :=
  rfl

@[simp] theorem site_describe (p : Plan n) (i : Fin n) : (p.describe f).site i = p.site i :=
  rfl

theorem inlinePath_describe (construct : String) (p : Plan n) (r : Fin n) :
    inlinePath construct (p.describe f) r = Plan.describe f <$> inlinePath construct p r := by
  rw [inlinePath, inlinePath, show (p.describe f).outlook.inlineSource? r =
    p.outlook.inlineSource? r from Outlook.inlineSource?_describe f p.outlook r]
  cases p.outlook.inlineSource? r with
  | none => rfl
  | some source =>
    simp only [calls_describe, site_describe]
    cases resolve p.calls (p.site r) (p.site source) <;> rfl

theorem foldlM_inlinePath_describe (construct : String) (rs : List (Fin n)) (p : Plan n) :
    rs.foldlM (inlinePath construct) (p.describe f) =
      Plan.describe f <$> rs.foldlM (inlinePath construct) p := by
  induction rs generalizing p with
  | nil => rfl
  | cons r rs ih =>
    rw [List.foldlM_cons, List.foldlM_cons, inlinePath_describe]
    cases inlinePath construct p r with
    | error fault => rfl
    | ok next => exact ih next

theorem ofMerge_describe (m : Merge n) (construct : String) :
    ofMerge (m.describe f) construct = Plan.describe f <$> ofMerge m construct := by
  have hnames : (fun r => Naming.baseName (m.describe f).object ((m.describe f).object r)) =
      fun r => Naming.baseName m.object (m.object r) := by
    funext r
    rw [Merge.object_describe]
    exact Naming.baseName_describe f (Merge.object_describe f m) _
  rw [ofMerge, ofMerge, hnames, named, named, Outlook.ofMerge_describe]
  cases Outlook.ofMerge m with
  | error fault => rfl
  | ok outlook =>
    change (outlook.describe f).retained.foldlM _ _ = _
    rw [Outlook.site_describe]
    exact foldlM_inlinePath_describe f construct outlook.retained ⟨outlook, _, []⟩

end Plan

end SceneCompiler
