import SceneCompiler.Proofs.Document.Linking
import SceneCompiler.Scene

/-!
# Scenes from documents

A document gives a scene exactly if its root is a visual and its records are linked.  The scene has
one object for each record, which is the record with every id replaced by a place.
-/

namespace SceneCompiler

namespace Heap

theorem place?_eq_some_iff {n k : Nat} {i : Fin n} : place? n k = some i ↔ i.val = k := by
  rw [place?]
  split
  next h => simp [Fin.ext_iff, eq_comm]
  next h =>
    simp only [reduceCtorEq, false_iff]
    omega

theorem exists_ofObjects? {objects : List (Object Nat)} {φ : Nat → Fin objects.length}
    (hall : ∀ o ∈ objects, ∀ part ∈ o.mentions, (φ part.2).val = part.2) :
    ∃ heap, ofObjects? objects = some heap ∧
      ∀ (i : Fin objects.length) (o : Object Nat), objects[i.val]? = some o → heap[i] = o.map φ := by
  have hplaced : replaceAll (fun o => o.replace (place? objects.length)) objects =
      some (objects.map (Object.map φ)) := by
    refine replaceAll_eq_some_map fun o ho => Object.replace_eq_some_map o fun part hpart => ?_
    exact place?_eq_some_iff.mpr (hall o ho part hpart)
  refine ⟨⟨(objects.map (Object.map φ)).toArray, by simp⟩, by simp [ofObjects?, hplaced], ?_⟩
  intro i o ho
  obtain ⟨hlt, rfl⟩ := List.getElem?_eq_some_iff.mp ho
  simp

end Heap

namespace Scene

open Linking

/--
A scene has the data of a document and an object for each of its records: the record with every id
replaced by the place of the record it names.
-/
structure Realizes (scene : Scene) (d : Document) (place : String → Fin scene.size) : Prop where
  className : scene.className = d.className
  width : scene.width = d.width
  height : scene.height = d.height
  durationMs : scene.durationMs = d.durationMs
  root : scene.root = place d.root
  object : ∀ id o, d.records.lookup id = some o → scene.heap[place id] = o.map place
  injective : ∀ id o id' o', d.records.lookup id = some o → d.records.lookup id' = some o' →
    place id = place id' → id = id'
  surjective : ∀ i, ∃ id o, d.records.lookup id = some o ∧ place id = i
  lower : ∀ id o, d.records.lookup id = some o → ∀ r ∈ o.singles, place r < place id

section

variable {d : Document} {found : Option Nat} {s : Linking}

theorem ofDocument_eq_error (hrun : Linking.run d.records d.root {} = (found, s))
    (hissues : s.issues ≠ []) : ofDocument d = .error s.issues := by
  have hempty : s.issues.isEmpty = false := by simpa using hissues
  simp only [ofDocument, StateT.run, hrun, hempty]

theorem ofDocument_eq_ok (hrun : Linking.run d.records d.root {} = (found, s))
    (hissues : s.issues = []) {root : Fin s.objects.length} (hroot : found = some root.val)
    {heap : Heap s.objects.length} (hheap : Heap.ofObjects? s.objects = some heap) :
    ofDocument d =
      .ok ⟨d.className, d.width, d.height, d.durationMs, s.objects.length, heap, root⟩ := by
  have hplace : found.bind (Heap.place? s.objects.length) = some root := by
    rw [hroot, Option.bind_some]
    exact Heap.place?_eq_some_iff.mpr rfl
  simp only [ofDocument, StateT.run, hrun, hissues, List.isEmpty_nil, hplace, hheap]

theorem exists_realizes (hrun : Linking.run d.records d.root {} = (found, s))
    (hissues : s.issues = []) (h : Success d.records d.root found s) :
    ∃ scene place, ofDocument d = .ok scene ∧ scene.Realizes d place := by
  obtain ⟨hvisual, hlinked, hplaced, hfound⟩ := h
  have hlt (id : String) (o : Object String) (ho : d.records.lookup id = some o) :
      s.addresses id < s.objects.length :=
    (List.getElem?_eq_some_iff.mp (hplaced.object id o ho)).1
  have hroot : s.addresses d.root < s.objects.length := by
    obtain ⟨o, ho, _⟩ := hvisual
    exact hlt _ o ho
  let φ (k : Nat) : Fin s.objects.length := if h : k < s.objects.length then ⟨k, h⟩ else ⟨_, hroot⟩
  have hφ (k : Nat) (hk : k < s.objects.length) : (φ k).val = k := by simp [φ, hk]
  have hmentions : ∀ o ∈ s.objects, ∀ part ∈ o.mentions, (φ part.2).val = part.2 := by
    intro o ho part hpart
    obtain ⟨k, hk, rfl⟩ := List.getElem_of_mem ho
    obtain ⟨id, record, hrecord, rfl⟩ := hplaced.surjective k hk
    have hobject := hplaced.object id record hrecord
    rw [List.getElem?_eq_getElem hk, Option.some.injEq] at hobject
    rw [hobject, Object.mentions_map] at hpart
    obtain ⟨mention, hmention, rfl⟩ := List.mem_map.mp hpart
    obtain ⟨target, htarget, _⟩ := hlinked.mentions id record hrecord mention hmention
    exact hφ _ (hlt _ target htarget)
  obtain ⟨heap, hheap, hobjects⟩ := Heap.exists_ofObjects? hmentions
  have hrootFound : found = some (φ (s.addresses d.root)).val := by rw [hfound, hφ _ hroot]
  refine ⟨_, φ ∘ s.addresses, ofDocument_eq_ok hrun hissues hrootFound hheap, ?_⟩
  refine ⟨rfl, rfl, rfl, rfl, rfl, fun id o ho => ?_, ?_, fun i => ?_, ?_⟩
  · rw [← Object.map_map]
    apply hobjects
    rw [Function.comp_apply, hφ _ (hlt id o ho)]
    exact hplaced.object id o ho
  · intro id o id' o' ho ho' heq
    refine hplaced.injective id o id' o' ho ho' ?_
    rw [← hφ _ (hlt id o ho), ← hφ _ (hlt id' o' ho')]
    exact congrArg Fin.val heq
  · obtain ⟨id, o, ho, hi⟩ := hplaced.surjective i.val i.isLt
    exact ⟨id, o, ho, Fin.ext ((hφ _ (hlt id o ho)).trans hi)⟩
  · intro id o ho r hr
    have hlower := hplaced.lower id o ho r hr
    have hid := hlt id o ho
    rw [Fin.lt_def, Function.comp_apply, Function.comp_apply, hφ _ hid, hφ _ (by omega)]
    exact hlower

end

theorem ofDocument_spec (d : Document) :
    (Holds d.records (.visual, d.root) ∧ Linked d.records ∧
        ∃ scene place, ofDocument d = .ok scene ∧ scene.Realizes d place) ∨
      (¬(Holds d.records (.visual, d.root) ∧ Linked d.records) ∧
        ∃ issues, issues ≠ [] ∧ ofDocument d = .error issues) := by
  obtain ⟨hsuccess, hquiet⟩ := Linking.run_spec d.records d.root
  by_cases hissues : (Linking.run d.records d.root {}).2.issues = []
  · have h := hsuccess hissues
    exact .inl ⟨h.visual, h.linked, exists_realizes rfl hissues h⟩
  · refine .inr ⟨fun ⟨hroot, hlinked⟩ => hissues (hquiet hroot hlinked), _, hissues, ?_⟩
    exact ofDocument_eq_error rfl hissues

end Scene

end SceneCompiler
