import Mathlib.Data.List.Nodup
import Mathlib.Data.Option.Basic
import SceneCompiler.Generate
import SceneCompiler.Proofs.Compile.Embedding
import SceneCompiler.Proofs.Document.Renaming
import SceneCompiler.Proofs.Scene.Faithfulness

/-!
# Documents that say the same

The ids of a document and the order of its objects are not part of what it says, and neither are
records that the root does not reach.  Documents that differ only in these give the same code.
-/

namespace SceneCompiler

open Members

/-! ## Records by id -/

theorem DescribesDocument.lookup_eq_some_iff {ms entries : Members} {d : Document}
    (h : DescribesDocument ms entries d) {id : String} {o : Object String} :
    d.records.lookup id = some o ↔
      id ≠ "__proto__" ∧ ∃ j, entries.lookup id = some j ∧ Format.record j o := by
  have hrel := rel_lookup h.records id
  rw [lookup_filter_key (· != "__proto__")] at hrel
  by_cases hid : id = "__proto__"
  · rw [if_neg (by simpa using hid)] at hrel
    cases hnone : d.records.lookup id with
    | none => simp [hid]
    | some o =>
      rw [hnone] at hrel
      cases hrel
  · rw [if_pos (by simpa using hid)] at hrel
    cases hrecord : d.records.lookup id <;> cases hentry : entries.lookup id <;>
      rw [hrecord, hentry] at hrel <;> cases hrel
    · simp
    next o' j hj =>
      simp only [Option.some.injEq, ne_eq, hid, not_false_eq_true, true_and]
      constructor
      · rintro rfl
        exact ⟨j, rfl, hj⟩
      · rintro ⟨_, rfl, ho⟩
        exact record_unique hj ho

/-! ## Documents inside others -/

/--
A document is part of another one under new ids: it has the same data, and each of its records is
there under its new id, with the ids that it mentions renamed.
-/
structure Document.Embeds (d d' : Document) (f : String → String) : Prop where
  injective : ∀ id o id' o', d.records.lookup id = some o → d.records.lookup id' = some o' →
    f id = f id' → id = id'
  className : d'.className = d.className
  width : d'.width = d.width
  height : d'.height = d.height
  durationMs : d'.durationMs = d.durationMs
  root : d'.root = f d.root
  records : ∀ id o, d.records.lookup id = some o → d'.records.lookup (f id) = some (o.map f)

namespace Scene

variable {scene scene' : Scene} {d d' : Document} {place : String → Fin scene.size}
  {place' : String → Fin scene'.size} {f : String → String}

theorem Realizes.embeds (h : scene.Realizes d place) (h' : scene'.Realizes d' place')
    (hlinked : Linking.Linked d.records) (hd : d.Embeds d' f) :
    ∃ φ, scene.heap.Embeds scene'.heap φ ∧
      ∀ id o, d.records.lookup id = some o → φ (place id) = place' (f id) := by
  choose idOf record hrecord hplace using h.surjective
  have hidOf (id : String) (o : Object String) (ho : d.records.lookup id = some o) :
      idOf (place id) = id :=
    h.injective _ _ _ _ (hrecord _) ho (hplace _)
  refine ⟨fun i => place' (f (idOf i)), ⟨fun i j hij => ?_, fun i => ?_⟩, fun id o ho => ?_⟩
  · have hid : f (idOf i) = f (idOf j) :=
      h'.injective _ _ _ _ (hd.records _ _ (hrecord i)) (hd.records _ _ (hrecord j)) hij
    rw [← hplace i, ← hplace j, hd.injective _ _ _ _ (hrecord i) (hrecord j) hid]
  · have hobject := h.object _ _ (hrecord i)
    rw [hplace] at hobject
    rw [h'.object _ _ (hd.records _ _ (hrecord i)), hobject, Object.map_map, Object.map_map]
    refine Object.map_congr _ fun part hpart => ?_
    obtain ⟨target, htarget, _⟩ := hlinked.mentions _ _ (hrecord i) part hpart
    rw [Function.comp_apply, Function.comp_apply, hidOf _ _ htarget]
  · exact congrArg (place' ∘ f) (hidOf id o ho)

theorem generated_eq_of_agree {n k : Nat} {x : Except Fault (Compilation n)}
    {y : Except Fault (Compilation k)} (h : Agree (fun c c' => c'.code = c.code) x y)
    (name : String) :
    (y.mapError GenerateError.fault >>= fun result => pure (⟨name, result.code⟩ : Generated)) =
      x.mapError .fault >>= fun result => pure ⟨name, result.code⟩ := by
  cases h with
  | ok hcode =>
    exact congrArg (fun code => (.ok ⟨name, code⟩ : Except GenerateError Generated)) hcode
  | error fault => rfl

theorem generate_eq_of_embeds (h : scene.Realizes d place) (h' : scene'.Realizes d' place')
    (hroot : Linking.Holds d.records (.visual, d.root)) (hlinked : Linking.Linked d.records)
    (hd : d.Embeds d' f) (o : GenerateOptions) (sourcePath : Option String) :
    scene'.generate o sourcePath = scene.generate o sourcePath := by
  obtain ⟨φ, hφ, hplace⟩ := h.embeds h' hlinked hd
  obtain ⟨top, htop, _⟩ := hroot
  have hroots : scene'.root = φ scene.root := by
    rw [h'.root, h.root, hd.root, hplace _ top htop]
  have hresult (options : Options) :
      ((compile scene'.heap scene'.root options).mapError GenerateError.fault >>= fun result =>
          pure (⟨options.className, result.code⟩ : Generated)) =
        (compile scene.heap scene.root options).mapError .fault >>= fun result =>
          pure ⟨options.className, result.code⟩ := by
    rw [hroots]
    exact generated_eq_of_agree (agree_compile hφ scene.root options) _
  have hclass : scene'.className = scene.className := by
    rw [h'.className, hd.className, h.className]
  have hwidth : scene'.width = scene.width := by rw [h'.width, hd.width, h.width]
  have hheight : scene'.height = scene.height := by rw [h'.height, hd.height, h.height]
  have hduration : scene'.durationMs = scene.durationMs := by
    rw [h'.durationMs, hd.durationMs, h.durationMs]
  simp only [Scene.generate, hclass, hwidth, hheight, hduration]
  cases o.className with
  | none => exact hresult _
  | some name =>
    dsimp only
    split
    · rfl
    · exact hresult _

end Scene

/-! ## Rearranging a document -/

/-- The members of two documents that differ at most in their objects. -/
structure DifferInObjects (ms entries ms' entries' : Members) : Prop where
  others : ∀ key, key ≠ "objects" → ms'.lookup key = ms.lookup key
  objects : ms.lookup "objects" = some (.object entries)
  objects' : ms'.lookup "objects" = some (.object entries')

/-- A function that renames ids apart, and that makes no other id empty or `__proto__`. -/
structure IsRenaming (f : String → String) (ids : List String) : Prop where
  injective : ∀ id ∈ ids, ∀ id' ∈ ids, f id = f id' → id = id'
  nonempty : ∀ id, id ≠ "" → f id ≠ ""
  proto : ∀ id, id ≠ "__proto__" → f id ≠ "__proto__"

/-- One change to a document that keeps what it says.  The keys of objects are distinct. -/
inductive Rearranges : Option Json → Option Json → Prop
  | rename {ms entries : Members} {f : String → String}
      (hobjects : ms.lookup "objects" = some (.object entries))
      (hf : IsRenaming f (entries.map Prod.fst)) :
      Rearranges (some (.object ms)) (some ((Json.object ms).renameDocument f))
  | reorder {ms entries ms' entries' : Members} (h : DifferInObjects ms entries ms' entries')
      (hnodup : (entries.map Prod.fst).Nodup) (hperm : entries.Perm entries') :
      Rearranges (some (.object ms)) (some (.object ms'))
  /-- If both documents load then the root reaches none of the records that are added. -/
  | add {ms entries ms' entries' : Members} (h : DifferInObjects ms entries ms' entries')
      (hnodup : (entries'.map Prod.fst).Nodup) (hsublist : entries.Sublist entries') :
      Rearranges (some (.object ms)) (some (.object ms'))

theorem DescribesDocument.embeds {ms entries ms' entries' : Members} {d d' : Document}
    {f : String → String} (h : DescribesDocument ms entries d)
    (h' : DescribesDocument ms' entries' d')
    (hf : ∀ id ∈ entries.map Prod.fst, ∀ id' ∈ entries.map Prod.fst, f id = f id' → id = id')
    (hdata : ∀ key ∈ ["className", "width", "height", "durationMs"],
      ms'.lookup key = ms.lookup key)
    (hroot : Required ms' "root" Format.id (f d.root))
    (hrecords : ∀ id j, id ≠ "__proto__" → entries.lookup id = some j →
      f id ≠ "__proto__" ∧ ∃ j', entries'.lookup (f id) = some j' ∧
        ∀ o, Format.record j o → Format.record j' (o.map f)) : d.Embeds d' f := by
  have required {α : Type} {F : Format α} {key : String} {a : α}
      (hkey : ms'.lookup key = ms.lookup key) (ha : Required ms key F a) :
      Required ms' key F a := by
    rw [Required, hkey]
    exact ha
  have hsame : d' = { d with root := f d.root, records := d'.records } := by
    apply describes_unique ⟨ms', entries', rfl, h'⟩
    refine ⟨ms', entries', rfl, ?_, ?_, ?_, ?_, hroot, h'.objects, h'.typed, h'.records⟩
    · have hname := h.className
      cases hc : d.className <;> rw [hc] at hname
      · exact (hdata _ (by simp)).trans hname
      · exact required (hdata _ (by simp)) hname
    · exact required (hdata _ (by simp)) h.width
    · exact required (hdata _ (by simp)) h.height
    · exact required (hdata _ (by simp)) h.durationMs
  have hkey (id : String) (o : Object String) (ho : d.records.lookup id = some o) :
      id ∈ entries.map Prod.fst := by
    obtain ⟨_, j, hj, _⟩ := h.lookup_eq_some_iff.mp ho
    exact List.mem_map_of_mem (mem_of_lookup hj)
  refine ⟨fun id o id' o' ho ho' => hf id (hkey id o ho) id' (hkey id' o' ho'), by rw [hsame],
    by rw [hsame], by rw [hsame], by rw [hsame], by rw [hsame], fun id o ho => ?_⟩
  obtain ⟨hid, j, hj, hrecord⟩ := h.lookup_eq_some_iff.mp ho
  obtain ⟨hproto, j', hj', hmap⟩ := hrecords id j hid hj
  exact h'.lookup_eq_some_iff.mpr ⟨hproto, j', hj', hmap o hrecord⟩

namespace Rearranges

variable {json json' : Option Json} {d d' : Document}

theorem embeds_of_subset {ms entries ms' entries' : Members}
    (h : DifferInObjects ms entries ms' entries') (hnodup : (entries'.map Prod.fst).Nodup)
    (hsubset : entries ⊆ entries') (hd : Describes (some (.object ms)) d)
    (hd' : Describes (some (.object ms')) d') : d.Embeds d' id := by
  obtain ⟨_, _, heq, hd⟩ := hd
  cases heq
  obtain ⟨_, _, heq', hd'⟩ := hd'
  cases heq'
  have hentries := hd.objects.symm.trans h.objects
  have hentries' := hd'.objects.symm.trans h.objects'
  cases hentries
  cases hentries'
  refine hd.embeds hd' (fun _ _ _ _ heq => heq) ?_ ?_ fun key j hkey hj => ⟨hkey, j, ?_, ?_⟩
  · intro key hkey
    apply h.others
    revert key
    decide
  · rw [Required, h.others _ (by decide)]
    exact hd.root
  · exact lookup_of_mem_nodup hnodup (hsubset (mem_of_lookup hj))
  · intro o ho
    rw [Object.map_id]
    exact ho

theorem embeds_rename {ms entries : Members} {f : String → String}
    (hobjects : ms.lookup "objects" = some (.object entries))
    (hf : IsRenaming f (entries.map Prod.fst)) (hd : Describes (some (.object ms)) d)
    (hd' : Describes (some ((Json.object ms).renameDocument f)) d') : d.Embeds d' f := by
  obtain ⟨_, _, heq, hd⟩ := hd
  cases heq
  obtain ⟨_, _, heq', hd'⟩ := hd'
  cases heq'
  have hentries := hd.objects.symm.trans hobjects
  cases hentries
  have hlookup (key : String) : (ms.map fun m => (m.1, m.2.renameMember f m.1)).lookup key =
      (ms.lookup key).map (Json.renameMember f key) :=
    lookup_map_entry (f := id) (Json.renameMember f) fun _ _ h => h
  have hentries' := hd'.objects
  rw [hlookup, hobjects] at hentries'
  cases hentries'
  refine hd.embeds hd' hf.injective ?_ ?_ fun key j hkey hj =>
    ⟨hf.proto key hkey, j.renameRecord f, ?_, fun o => record_rename hf.nonempty⟩
  · intro key hkey
    have hplain : key ≠ "root" ∧ key ≠ "objects" := by
      revert key
      decide
    have hsame : Json.renameMember f key = id := by
      funext j
      simp [Json.renameMember, hplain]
    rw [hlookup, hsame, Option.map_id, id]
  · obtain ⟨j, hj, hid⟩ := hd.root
    refine ⟨j.rename f .id, ?_, Format.id_rename hf.nonempty j _ hid⟩
    rw [hlookup, hj]
    rfl
  · have hmem : key ∈ entries.map Prod.fst := List.mem_map_of_mem (mem_of_lookup hj)
    have hapart : ∀ e ∈ entries, f e.1 = f key → e.1 = key :=
      fun e he => hf.injective _ (List.mem_map_of_mem he) _ hmem
    rw [lookup_map_entry (fun _ => Json.renameRecord f) hapart, hj, Option.map_some]

theorem exists_embeds (h : Rearranges json json') (hd : Describes json d)
    (hd' : Describes json' d') : ∃ f, d.Embeds d' f := by
  cases h with
  | rename hobjects hf => exact ⟨_, embeds_rename hobjects hf hd hd'⟩
  | reorder h hnodup hperm =>
    exact ⟨id, embeds_of_subset h ((hperm.map Prod.fst).nodup_iff.mp hnodup) hperm.subset hd hd'⟩
  | add h hnodup hsublist => exact ⟨id, embeds_of_subset h hnodup hsublist.subset hd hd'⟩

end Rearranges

def Loads (json : Option Json) : Prop :=
  ∃ path scene, Scene.load json path = .ok scene

theorem Rearranges.generate_eq {json json' : Option Json} (h : Rearranges json json')
    (hload : Loads json) (hload' : Loads json') (o : GenerateOptions)
    (sourcePath : Option String) : generate json o sourcePath = generate json' o sourcePath := by
  obtain ⟨_, scene, hscene⟩ := hload
  obtain ⟨_, scene', hscene'⟩ := hload'
  obtain ⟨d, place, hread, hrealizes, hroot, hlinked⟩ := Scene.exists_document hscene
  obtain ⟨d', place', hread', hrealizes', _⟩ := Scene.exists_document hscene'
  obtain ⟨f, hembeds⟩ := h.exists_embeds (Document.read_eq_ok_iff.mp hread)
    (Document.read_eq_ok_iff.mp hread')
  -- The path that a document is loaded from only matters if it does not load.
  have hload : Scene.load json (sourcePath.getD "<memory>") = .ok scene :=
    Scene.load_eq_ok_iff.mpr (Scene.load_eq_ok_iff.mp hscene)
  have hload' : Scene.load json' (sourcePath.getD "<memory>") = .ok scene' :=
    Scene.load_eq_ok_iff.mpr (Scene.load_eq_ok_iff.mp hscene')
  rw [generate, generate, hload, hload']
  exact (Scene.generate_eq_of_embeds hrealizes hrealizes' hroot hlinked hembeds o sourcePath).symm

/--
Documents that load give the same answer if one arises from the other by renaming ids, by reordering
the objects, and by adding or removing records that the root does not reach.
-/
theorem generate_rearranged {json json' : Option Json}
    (h : Relation.EqvGen (fun a b => Rearranges a b ∧ Loads a ∧ Loads b) json json')
    (o : GenerateOptions) (sourcePath : Option String) :
    generate json o sourcePath = generate json' o sourcePath := by
  induction h with
  | rel a b h => exact h.1.generate_eq h.2.1 h.2.2 o sourcePath
  | refl a => rfl
  | symm a b _ ih => exact ih.symm
  | trans a b c _ _ ih ih' => exact ih.trans ih'

def documentMembers (root : String) (objects : Members) : Members :=
  [("width", .number 100), ("height", .number 100), ("durationMs", .number 1000),
   ("root", .string root), ("objects", .object objects)]

theorem differInObjects_documentMembers (root : String) (entries entries' : Members) :
    DifferInObjects (documentMembers root entries) entries (documentMembers root entries')
      entries' := by
  refine ⟨fun key hkey => ?_, rfl, rfl⟩
  simp only [documentMembers, List.lookup_cons, beq_eq_false_iff_ne.mpr hkey]

theorem loads_of_size {json : Option Json} (size : Nat)
    (h : ((Scene.load json "").toOption.any fun scene => decide (scene.size = size)) = true) :
    Loads json := by
  obtain ⟨scene, hscene, _⟩ := Scene.exists_of_load h
  exact ⟨"", scene, hscene⟩

/-- A shape with a brush for its fill and its stroke, under ids of our choice. -/
def shapeObjects (root shape brush : String) : Members :=
  [(root, .object [("type", .string "ShapeVisual"), ("shapes", .array [.string shape])]),
   (shape, .object [("type", .string "CompositionSpriteShape"), ("fillBrush", .string brush),
     ("strokeBrush", .string brush)]),
   (brush, .object [("type", .string "CompositionColorBrush"), ("color", .string "#ff00FF80")])]

/-- The same shape in the opposite order, after a record that it does not reach and that has the id
of its brush before. -/
def rearrangedObjects : Members :=
  ("brush", .object [("type", .string "CompositionViewBox"),
    ("size", .object [("x", .number 1), ("y", .number 2)])]) ::
    (shapeObjects "shape" "root" "paint").reverse

theorem generate_rearranged_shape :
    Loads (some (.object (documentMembers "root" (shapeObjects "root" "shape" "brush")))) ∧
      Loads (some (.object (documentMembers "shape" rearrangedObjects))) ∧
      generate (some (.object (documentMembers "root" (shapeObjects "root" "shape" "brush")))) {}
          (some "shape.json") =
        generate (some (.object (documentMembers "shape" rearrangedObjects))) {}
          (some "shape.json") := by
  let f (id : String) : String :=
    if id = "brush" then "paint" else if id = "root" then "shape"
    else if id = "shape" then "root" else id
  have hf : IsRenaming f ((shapeObjects "root" "shape" "brush").map Prod.fst) := by
    refine ⟨by decide, ?_, ?_⟩ <;> intro id hid <;> grind
  have hload : Loads (some (.object (documentMembers "root"
      (shapeObjects "root" "shape" "brush")))) := loads_of_size 3 (by decide +kernel)
  have hrenamed : Loads (some (.object (documentMembers "shape"
      (shapeObjects "shape" "root" "paint")))) := loads_of_size 3 (by decide +kernel)
  have hreversed : Loads (some (.object (documentMembers "shape"
      (shapeObjects "shape" "root" "paint").reverse))) :=
    loads_of_size 3 (by decide +kernel)
  have hload' : Loads (some (.object (documentMembers "shape" rearrangedObjects))) :=
    loads_of_size 4 (by decide +kernel)
  refine ⟨hload, hload', generate_rearranged (.trans _ _ _ (.rel _ _ ⟨?_, hload, hrenamed⟩)
    (.trans _ _ _ (.rel _ _ ⟨?_, hrenamed, hreversed⟩) (.rel _ _ ⟨?_, hreversed, hload'⟩))) {} _⟩
  · exact .rename rfl hf
  · exact .reorder (differInObjects_documentMembers _ _ _) (by decide) (List.reverse_perm _).symm
  · exact .add (differInObjects_documentMembers _ _ _) (by decide) (List.sublist_cons_self _ _)

end SceneCompiler
