import SceneCompiler.Proofs.Compile.Names
import SceneCompiler.Proofs.Model.Invariance
import SceneCompiler.Proofs.Sketch.Agreement

/-!
# Drawings of typed objects

The objects of a drawing are those that its slots hold, with places for slots.  If their fields are
all of their types, the drawing is compiled to the code of its graph.
-/

namespace SceneCompiler

variable {n : Nat}

/-! ## What merging, naming and writing read -/

section Congruence

variable {g : Graph n} (hg : g.Ordered) {atoms atoms' : Fin n → Option (List Atom)}
  (hatoms : ∀ i ∈ g.order, atoms i = atoms' i)

theorem Grouping.labels_congr {find find' : Grouping n → Fin n → Label n × Grouping n}
    {is : List (Fin n)} (h : ∀ i ∈ is, ∀ s, find s i = find' s i) (s : Grouping n) :
    labels find s is = labels find' s is := by
  induction is generalizing s with
  | nil => rfl
  | cons i is ih =>
    rw [List.forall_mem_cons] at h
    simp only [labels, h.1, ih h.2]

include hg hatoms

theorem Grouping.label_congr (fuel : Nat) (active : List (Fin n)) (s : Grouping n) {i : Fin n}
    (hi : i ∈ g.order) :
    label g.heap atoms fuel active s i = label g.heap atoms' fuel active s i := by
  induction fuel generalizing active s i with
  | zero => rfl
  | succ fuel ih =>
    have hlabels : labels (label g.heap atoms fuel (i :: active)) s g.heap[i].references =
        labels (label g.heap atoms' fuel (i :: active)) s g.heap[i].references :=
      labels_congr (fun j hj s => ih (i :: active) s (hg.closed i hi hj)) s
    rw [label, label, hatoms i hi]
    simp only [hlabels]

theorem Merge.ofGraph_congr : ofGraph g atoms = ofGraph g atoms' := by
  have hgrouping : Grouping.ofGraph g atoms = Grouping.ofGraph g atoms' :=
    List.foldl_ext _ _ _ fun s i hi =>
      congrArg Prod.snd (Grouping.label_congr hg hatoms (n + 1) [] s hi)
  rw [ofGraph, hgrouping, ofGraph]

end Congruence

theorem Plan.named_congr {m : Merge n} {baseName baseName' : Fin n → String}
    (h : ∀ i ∈ m.graph.order, baseName i = baseName' i) (construct : String) :
    named m baseName construct = named m baseName' construct := by
  by_cases hfound : ∀ i ∈ m.bound, i ∈ m.graph.order
  · have hnames : m.outlook.names baseName = m.outlook.names baseName' := by
      have hbase : m.outlook.retained.map baseName = m.outlook.retained.map baseName' :=
        List.map_congr_left fun r hr =>
          h r (Merge.mem_representatives.mp (List.mem_of_mem_filter hr)).1
      rw [Outlook.names, hbase, Outlook.names]
    rw [named, named, Merge.ofMerge_eq_outlook m hfound]
    exact congrArg (fun names => List.foldlM _ (Plan.mk _ (Vector.ofFn (m.outlook.site names)) _) _)
      hnames
  · simp only [not_forall] at hfound
    obtain ⟨i, hi, hout⟩ := hfound
    obtain ⟨j, hj⟩ := Merge.ofMerge_error m ⟨i, hi, hout⟩
    rw [named, named, hj]
    rfl

theorem Plan.write_congr {p : Plan n} {method method' : Fin n → Writing (List Code)}
    (h : ∀ r ∈ p.merge.graph.order, method r = method' r) (o : Options) :
    p.write o method = p.write o method' := by
  have hmethods (rs : List (Fin n)) (hrs : rs ⊆ p.merge.graph.order) :
      rs.mapM method = rs.mapM method' := by
    induction rs with
    | nil => rfl
    | cons r rs ih =>
      rw [List.cons_subset] at hrs
      rw [List.mapM_cons, List.mapM_cons, h r hrs.1, ih hrs.2]
  have hfactory : p.withFactory ⊆ p.merge.graph.order := fun r hr =>
    (Merge.mem_representatives.mp (List.mem_of_mem_filter (List.mem_mergeSort.mp hr))).1
  rw [write, write, methods, methods, hmethods _ hfactory]

/-! ## The objects of a drawing -/

namespace Drawing

variable {d : Drawing}

/-- A drawing has the objects of its sketch, and whatever they mention has a place. -/
structure Shows (d : Drawing) : Prop where
  object : ∀ i, d.graph.object i = (d.sketch.draft (d.slot i)).placed (Draft.place? d.drafts)
  mentioned : ∀ i o, d.sketch.draft (d.slot i) = .known o →
    ∀ part ∈ o.mentions, ∃ j, Draft.place? d.drafts part.2 = some j
  known : ∀ i ∈ d.graph.order, ∃ o, d.sketch.draft (d.slot i) = .known o
  ordered : d.graph.Ordered

theorem slot_of_place? {slot : Slot} {i : Fin d.drafts.length}
    (h : Draft.place? d.drafts slot = some i) : d.slot i = slot := by
  obtain ⟨j, hj, rfl⟩ := Option.map_eq_some_iff.mp h
  simpa [Drawing.slot] using (List.finIdxOf?_eq_some_iff.mp hj).1

theorem Shows.held_slot (h : d.Shows) (i : Fin d.drafts.length) :
    d.sketch.held (d.slot i) = (d.graph.object i).map d.slot := by
  rw [h.object, Sketch.held]
  cases hdraft : d.sketch.draft (d.slot i) with
  | unknown what tag type => rfl
  | known o =>
    have hplace := h.mentioned i o hdraft
    have hall : ∀ part ∈ o.mentions, Draft.place? d.drafts part.2 =
        some ((Draft.place? d.drafts part.2).getD i) := by
      intro part hpart
      obtain ⟨j, hj⟩ := hplace part hpart
      rw [hj, Option.getD_some]
    rw [Draft.placed, Object.replace_eq_some_map (φ := fun r => (Draft.place? d.drafts r).getD i) o
      hall, Option.getD_some, Object.map_map, Object.map_congr (ψ := id) o fun part hpart =>
        slot_of_place? (hall part hpart), Object.map_id]

end Drawing

namespace Sketch

variable {s : Sketch}

theorem mem_typedCells {slot : Slot} {o : Object Slot} (h : s.draft slot = .known o) :
    slot ∈ s.typedCells := by
  have htype : ((s.fields slot).get "type").toText ≠ "" := by
    cases reads_of_draft h with
    | @composition variant htype _ =>
      rw [htype]
      cases variant <;> simp [Variant.typeName]
    | path htype => simp [htype]
    | canvas htype _ => simp [htype]
  cases slot with
  | cell address =>
    cases hlookup : (s.fields (.cell address)).lookup "type" with
    | none => exact absurd (by rw [Slots.get, hlookup]; rfl) htype
    | some type =>
      have hsize : address < s.cells.size := by
        by_contra hsize
        simp [fields, cell?, hsize] at hlookup
      exact List.mem_filterMap.mpr ⟨address, List.mem_range.mpr hsize, by simp [hlookup]⟩
  | _ => exact absurd rfl htype

theorem exists_place? {root slot : Slot} (h : slot ∈ (s.drafts root).map (·.1)) :
    ∃ i, Draft.place? (s.drafts root) slot = some i := by
  cases hfound : ((s.drafts root).map (·.1)).finIdxOf? slot with
  | none => exact absurd h (List.finIdxOf?_eq_none_iff.mp hfound)
  | some j => exact ⟨_, by rw [Draft.place?, hfound]; rfl⟩

theorem mem_drafts_of_mentions {root slot : Slot} {o : Object Slot} (h : s.draft slot = .known o)
    {part : Demand × Slot} (hpart : part ∈ o.mentions) : part.2 ∈ (s.drafts root).map (·.1) := by
  have hmentioned : part.2 ∈ o.references ++ animatorReferences o.animators := by
    rw [Object.references_eq]
    rcases List.mem_append.mp hpart with hpart | hanimation
    · simp [List.mem_map_of_mem (f := Prod.snd) hpart]
    · obtain ⟨r, hr, rfl⟩ := List.mem_map.mp hanimation
      simp [hr]
  simp only [drafts, List.map_map, Function.comp_def, List.map_id', List.mem_eraseDups]
  refine List.mem_append_right _ (List.mem_flatMap.mpr ⟨slot, mem_typedCells h, ?_⟩)
  rwa [h]

theorem shows_of_draw {root : Slot} {d : Drawing} (h : s.draw root = .ok d) :
    d.sketch = s ∧ d.Shows := by
  unfold draw at h
  dsimp only at h
  split at h
  next => cases h
  next place _ =>
    obtain ⟨graph, hgraph, hd⟩ := bind_eq_ok_iff.mp h
    cases hd
    obtain ⟨_, hknown, hgraph⟩ := bind_eq_ok_iff.mp hgraph
    cases hgraph
    have hdraft (i : Fin (s.drafts root).length) :
        (s.drafts root)[i].2 = s.draft (s.drafts root)[i].1 := by
      have hmem : (s.drafts root)[i] ∈ s.drafts root := List.getElem_mem i.isLt
      obtain ⟨slot, _, hslot⟩ := List.mem_map.mp hmem
      rw [← hslot]
    refine ⟨rfl, fun i => ?_, fun i o ho part hpart => ?_, fun i hi => ?_,
      Graph.ofRoot_ordered _ place⟩
    · refine Eq.trans ?_ (congrArg (Draft.placed _) (hdraft i))
      simp [Graph.object, Graph.ofRoot]
    · exact exists_place? (mem_drafts_of_mentions ho hpart)
    · have hknown := forM_eq_ok_iff.mp hknown i hi
      rw [hdraft] at hknown
      dsimp only [Drawing.slot]
      cases hread : s.draft (s.drafts root)[i].1 with
      | known o => exact ⟨o, rfl⟩
      | unknown what tag type =>
        rw [hread] at hknown
        cases hknown

end Sketch

namespace Drawing

variable {d : Drawing}

theorem Shows.draft_slot (h : d.Shows) {i : Fin d.drafts.length} (hi : i ∈ d.graph.order) :
    d.sketch.draft (d.slot i) = .known ((d.graph.object i).map d.slot) := by
  obtain ⟨o, ho⟩ := h.known i hi
  rw [ho, ← h.held_slot, Sketch.held, ho]

variable (htyped : ∀ i ∈ d.graph.order, d.sketch.isTyped (d.slot i) = true)
include htyped

theorem Shows.atoms_eq (h : d.Shows) (keep : Bool) {i : Fin d.drafts.length}
    (hi : i ∈ d.graph.order) : d.sketch.atoms? keep (d.slot i) = d.graph.atoms keep i := by
  rw [Sketch.atoms?_eq (h.draft_slot hi) (htyped i hi), Object.atoms?_map, Graph.atoms]

theorem Shows.baseName_eq (h : d.Shows) {i : Fin d.drafts.length} (hi : i ∈ d.graph.order) :
    d.sketch.baseName (d.slot i) = Naming.baseName d.graph.object (d.graph.object i) := by
  have hbelow : ∀ slot ∈ ((d.graph.object i).map d.slot).references,
      d.sketch.isTyped slot = true := by
    intro slot hslot
    rw [Object.references_map] at hslot
    obtain ⟨j, hj, rfl⟩ := List.mem_map.mp hslot
    exact htyped j (h.ordered.closed i hi hj)
  rw [Sketch.baseName_eq (h.draft_slot hi) (htyped i hi) hbelow,
    Naming.baseName_map d.slot h.held_slot]

theorem checkKey_eq {i : Fin d.drafts.length} (hi : i ∈ d.graph.order) :
    d.checkKey i = .ok () := by
  unfold checkKey
  dsimp only
  split
  next hpath =>
    simp only [Bool.and_eq_true, beq_iff_eq] at hpath
    have hframes := htyped i hi
    simp only [Sketch.isTyped, hpath.1.1] at hframes
    have hframes := ((Bool.and_eq_true _ _).mp ((Bool.and_eq_true _ _).mp hframes).2).2
    simp only [Sketch.typedFrames, Sketch.typedFrame, Bool.and_eq_true, List.all_eq_true] at hframes
    have hlost : d.lostPaths (d.sketch.fields (d.slot i)) = [] := by
      simp only [lostPaths, List.map_eq_nil_iff, List.filter_eq_nil_iff, List.forall_mem_map]
      intro slot hslot
      have hvalue := (hframes.2 slot hslot).2
      cases hkind : Sketch.hasValue (d.sketch.fields slot) <;> simp_all
    rw [hlost]
    rfl
  next => rfl

theorem Shows.merge_eq (h : d.Shows) (keep : Bool) :
    d.merge keep = .ok (Merge.ofGraph d.graph (d.graph.atoms keep)) := by
  rw [merge, forM_eq_ok_iff.mpr fun i => checkKey_eq htyped,
    ← Merge.ofGraph_congr h.ordered fun i => h.atoms_eq htyped keep]
  rfl

theorem Shows.compile_ok_iff (h : d.Shows) (o : Options) (c : Compilation d.drafts.length) :
    d.compile o = .ok c ↔ d.graph.compile o = .ok c := by
  have hmethod (p : Plan d.drafts.length) (hp : p.merge.graph = d.graph) :
      p.write o (Scribe.method ⟨d.sketch, p, o, d.slot, d.place⟩) = p.write o (p.method o) :=
    Plan.write_congr (fun r hr => if_pos (htyped r (hp ▸ hr))) o
  have hplan : Plan.named (Merge.ofGraph d.graph (d.graph.atoms o.setComments))
      (fun i => d.sketch.baseName (d.slot i)) o.dialect.newOperator =
        Plan.ofMerge _ o.dialect.newOperator :=
    Plan.named_congr (fun i hi => h.baseName_eq htyped hi) _
  unfold compile plan Graph.compile
  rw [h.merge_eq htyped]
  simp only [bind_eq_ok_iff, Except.ok.injEq, exists_eq_left', mapError_eq_ok_iff, hplan]
  refine exists_congr fun p => and_congr_right fun hp => ?_
  have hmerge : p.outlook = Merge.outlook _ := (Plan.named_eq_ok hp).1
  rw [hmethod p (by rw [Plan.merge, hmerge]; rfl)]

omit htyped in
/-- A drawing of typed objects is compiled to what its graph is compiled to. -/
theorem compile_ok_iff {s : Sketch} {root : Slot} (hdraw : s.draw root = .ok d)
    (htyped : ∀ i ∈ d.graph.order, s.isTyped (d.slot i) = true) (o : Options)
    (c : Compilation d.drafts.length) :
    d.compile o = .ok c ↔ d.graph.compile o = .ok c := by
  obtain ⟨rfl, hshows⟩ := Sketch.shows_of_draw hdraw
  exact hshows.compile_ok_iff htyped o c

-- an empty visual, as it is created
example : (Sketch.draw ⟨#[.record [("type", .text "ContainerVisual"), ("children", .cell 1),
      ("properties", .cell 2)], .list [],
      .record [("scalarProperties", .cell 3), ("vector2Properties", .cell 3)], .table []], []⟩
    (.cell 0)).map (fun d => d.graph.order.map fun i => d.sketch.isTyped (d.slot i)) =
      .ok [true] := by
  rfl

end Drawing

end SceneCompiler
