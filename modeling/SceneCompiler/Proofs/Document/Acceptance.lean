import SceneCompiler.Proofs.Document.Records

/-!
# Reading documents

A document is read exactly if it is of the format, and then it is read as what the format says.
Otherwise there is an issue.
-/

namespace SceneCompiler

open Members

section Steps

variable {ε α β : Type} {x : Except ε α} {f : α → Except ε β}

theorem bind_eq_ok_iff {b : β} : (x >>= f) = .ok b ↔ ∃ a, x = .ok a ∧ f a = .ok b := by
  cases x <;> simp [bind, Except.bind]

theorem bind_eq_error_iff {e : ε} :
    (x >>= f) = .error e ↔ x = .error e ∨ ∃ a, x = .ok a ∧ f a = .error e := by
  cases x <;> simp [bind, Except.bind]

theorem mapError_eq_ok_iff {δ : Type} {g : ε → δ} {a : α} : x.mapError g = .ok a ↔ x = .ok a := by
  cases x <;> simp [Except.mapError]

theorem forM_eq_ok_iff {check : α → Except ε Unit} {as : List α} :
    as.forM check = .ok () ↔ ∀ a ∈ as, check a = .ok () := by
  induction as with
  | nil => simp [List.forM, pure, Except.pure]
  | cons a as ih =>
    rw [List.forall_mem_cons, ← ih]
    refine bind_eq_ok_iff.trans ⟨?_, fun h => ⟨(), h⟩⟩
    rintro ⟨_, h⟩
    exact h

end Steps

namespace Document

theorem settle_eq_ok_iff {α : Type} {r : Reading α} {a : α} : settle r = .ok a ↔ r.Gives a := by
  simp only [settle, Reading.Gives]
  split <;> simp_all

theorem issues_of_settle {α : Type} {r : Reading α} {issues : List Issue}
    (h : settle r = .error issues) : issues ≠ [] := by
  rintro rfl
  have hissues : r.issues = [] := by
    simp only [settle] at h
    split at h
    · cases h
    · exact Except.error.inj h
  obtain ⟨a, ha⟩ := Reading.exists_gives hissues
  rw [settle_eq_ok_iff.mpr ha] at h
  cases h

def outlined : Format (String × Json) := fun j e => e.2 = j ∧ Format.typed j e.1

theorem gives_typed (path : KeyPath) (j : Json) (e : String × Json) :
    (typed path j).Gives e ↔ outlined j e := by
  rcases e with ⟨type, j'⟩
  simp only [typed, outlined, Format.typed, Format.object, Reader.gives_object]
  simp
  grind

theorem gives_readRecords {ws : List (String × String × Json)}
    {records : List (String × Object String)} :
    (readRecords ws).Gives records ↔
      List.Forall₂ (fun w r => w.1 = r.1 ∧ (Record.read w.2.1 ["objects", w.1] w.2.2).Gives r.2)
        ws records := by
  induction ws generalizing records with
  | nil => cases records <;> simp [readRecords]
  | cons w rest ih =>
    rcases w with ⟨id, type, j⟩
    cases records with
    | nil => simp [readRecords]
    | cons r records =>
      rcases r with ⟨id', o⟩
      simp [readRecords, ih]
      grind

theorem gives_read_of_outlined {m : String × Json} {w : String × String × Json}
    (h : Format.entry outlined m w) {r : String × Object String} :
    (w.1 = r.1 ∧ (Record.read w.2.1 ["objects", w.1] w.2.2).Gives r.2) ↔
      Format.entry Format.record m r := by
  rcases m with ⟨id, j⟩
  rcases w with ⟨id', type, j'⟩
  obtain ⟨hid, hj', ms, hms, hj⟩ := h
  simp only at hid hj' hms
  subst hid hj' hms
  have htype : ms.lookup "type" = some (.string type) := by
    simpa [Required, Format.string] using hj
  simp [Record.gives_read htype, Format.entry, Format.record, Format.object]

theorem entry_outlined_iff {m : String × Json} {w : String × String × Json} :
    Format.entry outlined m w ↔ ∃ type, Format.typed m.2 type ∧ w = (m.1, type, m.2) := by
  rcases w with ⟨id, type, j⟩
  simp only [Format.entry, outlined, Prod.mk.injEq]
  grind

theorem exists_outline_iff {entries : Members} {records : List (String × Object String)} :
    (∃ all, List.Forall₂ (Format.entry outlined) entries all ∧
      List.Forall₂ (fun w r => w.1 = r.1 ∧ (Record.read w.2.1 ["objects", w.1] w.2.2).Gives r.2)
        (all.filter fun w => w.1 != "__proto__") records) ↔
    (∀ m ∈ entries, ∃ type, Format.typed m.2 type) ∧
      List.Forall₂ (Format.entry Format.record) (entries.filter fun m => m.1 != "__proto__")
        records := by
  induction entries generalizing records with
  | nil => simp
  | cons m rest ih =>
    simp only [List.forall_mem_cons, List.forall₂_cons_left_iff, List.filter_cons]
    by_cases hproto : m.1 = "__proto__"
    · simp only [hproto, bne_self_eq_false, Bool.false_eq_true, if_false]
      constructor
      · rintro ⟨_, ⟨w, all, hw, hall, rfl⟩, hrecords⟩
        obtain ⟨type, htype, rfl⟩ := entry_outlined_iff.mp hw
        simp only [List.filter_cons, hproto, bne_self_eq_false, Bool.false_eq_true,
          if_false] at hrecords
        obtain ⟨htypes, hkept⟩ := ih.mp ⟨all, hall, hrecords⟩
        exact ⟨⟨⟨type, htype⟩, htypes⟩, hkept⟩
      · rintro ⟨⟨⟨type, htype⟩, htypes⟩, hkept⟩
        obtain ⟨all, hall, hrecords⟩ := ih.mpr ⟨htypes, hkept⟩
        refine ⟨_, ⟨_, all, entry_outlined_iff.mpr ⟨type, htype, rfl⟩, hall, rfl⟩, ?_⟩
        simpa only [List.filter_cons, hproto, bne_self_eq_false, Bool.false_eq_true, if_false]
          using hrecords
    · have hkeep : (m.1 != "__proto__") = true := by simpa using hproto
      simp only [hkeep, if_true, List.forall₂_cons_left_iff]
      constructor
      · rintro ⟨_, ⟨w, all, hw, hall, rfl⟩, hrecords⟩
        have hread := @gives_read_of_outlined m w hw
        obtain ⟨type, htype, rfl⟩ := entry_outlined_iff.mp hw
        simp only [List.filter_cons, hkeep, if_true, List.forall₂_cons_left_iff] at hrecords
        obtain ⟨r, records, hr, hrest, rfl⟩ := hrecords
        obtain ⟨htypes, hkept⟩ := ih.mp ⟨all, hall, hrest⟩
        exact ⟨⟨⟨type, htype⟩, htypes⟩, r, records, hread.mp hr, hkept, rfl⟩
      · rintro ⟨⟨⟨type, htype⟩, htypes⟩, r, records, hr, hkept, rfl⟩
        have hw : Format.entry outlined m (m.1, type, m.2) :=
          entry_outlined_iff.mpr ⟨type, htype, rfl⟩
        obtain ⟨all, hall, hrecords⟩ := ih.mpr ⟨htypes, hkept⟩
        refine ⟨_, ⟨_, all, hw, hall, rfl⟩, ?_⟩
        simp only [List.filter_cons, hkeep, if_true, List.forall₂_cons_left_iff]
        exact ⟨r, records, (gives_read_of_outlined hw).mpr hr, hrecords, rfl⟩

theorem gives_outline {path : KeyPath} {j : Json} {w : Outline} :
    (outline path j).Gives w ↔ ∃ ms, j = .object ms ∧
      Optional ms "className" (Format.checked isClassName Format.string) w.className ∧
      Required ms "width" Format.positive w.width ∧ Required ms "height" Format.positive w.height ∧
      Required ms "durationMs" Format.nonnegative w.durationMs ∧
      Required ms "root" Format.id w.root ∧
      Required ms "objects" (Format.map outlined) w.objects := by
  have hname (path : KeyPath) (j : Json) (s : String) :
      (Reader.check isClassName "Expected a class name identifier" Reader.string path j).Gives s ↔
        Format.checked isClassName Format.string j s := by
    simp [Format.checked]
  cases w
  simp [outline, hname, Reader.gives_map gives_typed, and_assoc, -Reader.gives_check]

theorem read_eq (json : Option Json) : ∃ r : Reading Outline,
    (∀ w, r.Gives w ↔ ∃ j, json = some j ∧ (outline [] j).Gives w) ∧
      Document.read json = do
        let whole ← settle r
        let records ← settle (readRecords whole.objects)
        return ⟨whole.className, whole.width, whole.height, whole.durationMs, whole.root,
          records⟩ := by
  cases json with
  | none => exact ⟨Reading.reject [] "Required", by simp, rfl⟩
  | some j => exact ⟨outline [] j, by simp, rfl⟩

theorem read_eq_ok_iff {json : Option Json} {d : Document} :
    Document.read json = .ok d ↔ Describes json d := by
  obtain ⟨r, hr, hread⟩ := read_eq json
  rw [hread]
  simp only [bind_eq_ok_iff, settle_eq_ok_iff, hr, gives_outline, gives_readRecords, Describes,
    describesDocument_iff]
  constructor
  · rintro ⟨w, ⟨_, rfl, ms, rfl, hname, hwidth, hheight, hduration, hroot, hobjects⟩, records,
      hrecords, hd⟩
    cases hd
    obtain ⟨_, hlookup, entries, all, rfl, hall, hkept⟩ := hobjects
    rw [hkept] at hrecords
    obtain ⟨htyped, hdescribed⟩ := exists_outline_iff.mp ⟨all, hall, hrecords⟩
    exact ⟨ms, entries, rfl, hname, hwidth, hheight, hduration, hroot, hlookup, htyped, hdescribed⟩
  · rintro ⟨ms, entries, rfl, hname, hwidth, hheight, hduration, hroot, hlookup, htyped, hdescribed⟩
    obtain ⟨all, hall, hrecords⟩ := exists_outline_iff.mpr ⟨htyped, hdescribed⟩
    exact ⟨⟨d.className, d.width, d.height, d.durationMs, d.root, _⟩,
      ⟨_, rfl, ms, rfl, hname, hwidth, hheight, hduration, hroot,
        _, hlookup, entries, all, rfl, hall, rfl⟩, d.records, hrecords, rfl⟩

theorem issues_of_read {json : Option Json} {issues : List Issue}
    (h : Document.read json = .error issues) : issues ≠ [] := by
  obtain ⟨r, _, hread⟩ := read_eq json
  rw [hread, bind_eq_error_iff] at h
  rcases h with h | ⟨w, _, h⟩
  · exact issues_of_settle h
  · rcases bind_eq_error_iff.mp h with h | ⟨records, _, h⟩
    · exact issues_of_settle h
    · cases h

end Document

/-! ## What is described is unique -/

theorem record_unique {j : Json} {o o' : Object String} (h : Format.record j o)
    (h' : Format.record j o') : o = o' := by
  obtain ⟨ms, rfl, ho⟩ := h
  obtain ⟨_, heq, ho'⟩ := h'
  cases heq
  obtain ⟨_, htype, rfl⟩ := ho.1
  have hgives : (Record.read o.typeName [] (.object ms)).Gives o := (Record.gives_read htype).mpr ho
  have hgives' : (Record.read o.typeName [] (.object ms)).Gives o' :=
    (Record.gives_read htype).mpr ho'
  exact Option.some.inj (hgives.1.symm.trans hgives'.1)

theorem describes_unique {json : Option Json} {d d' : Document} (h : Describes json d)
    (h' : Describes json d') : d = d' := by
  rw [← Document.read_eq_ok_iff] at h h'
  exact Except.ok.inj (h.symm.trans h')

end SceneCompiler
