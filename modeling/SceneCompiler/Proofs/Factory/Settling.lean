import Mathlib.Data.List.Perm.Subperm
import SceneCompiler.Proofs.Factory.Fields

/-!
# Statements that settle fields

Statements settle the fields of an object if they assign those whose values a new object does not have,
and add the items of its lists.  Then no field is assigned twice, and performed on a new object the
statements give it the fields.
-/

namespace SceneCompiler

/-- The fields that are no settable properties.  Animations are started, parameters and key frames are
inserted, the type comes with the method, and descriptions are for readers of the code. -/
def fixedFields : List String :=
  ["animators", "properties", "type", "shortDescription", "longDescription",
   "referenceParameters", "keyFrames"]

def Datum.isBlank : Datum → Bool
  | .text value => Text.isBlank value
  | _ => false

/-- Whether a field is a settable property.  A blank comment or target counts as none, and so do all
comments unless comments are set. -/
def Settings.admits (s : Settings) (field : String × Datum) : Bool :=
  if field.1 = "comment" then s.setComments && !field.2.isBlank
  else if field.1 = "target" then !field.2.isBlank
  else !fixedFields.contains field.1

def Object.settable {ρ : Type} (s : Settings) (ref : ρ → Datum) (o : Object ρ) : Attributes :=
  (o.fields ref).filter s.admits

variable {ρ : Type}

structure Stands (s : Settings) (ref : ρ → Datum) (key : String) (a : Operand ρ) (v : Datum) :
    Prop where
  same : v.Same (a.datum s ref)
  text : (∃ r, a = .object r ∧ v = ref r) ∨ ∀ (d : CSharp.Dialect) (access : ρ → Access),
    CSharp.written? d s key v = some (CSharp.operand d (a.map access))

structure Due (s : Settings) (fresh : Attributes) (field : String × Datum) : Prop where
  admitted : s.admits field = true
  not_list : ∀ list : ItemList, list.field ≠ field.1
  differs : ∀ standard, (field.1, standard) ∈ fresh → ¬field.2.Same standard

def Statement.isQuiet : Statement ρ → Bool
  | .assign .result _ _ => false
  | .add _ _ => false
  | _ => true

/-- Statements that assign the fields that are due, and fill the lists. -/
inductive Settles (s : Settings) (ref : ρ → Datum) (fresh : Attributes) :
    List (Statement ρ) → Attributes → Prop where
  | done : Settles s ref fresh [] []
  | skip {statement : Statement ρ} {ss : List (Statement ρ)} {fields : Attributes} :
      statement.isQuiet = true → Settles s ref fresh ss fields →
        Settles s ref fresh (statement :: ss) fields
  | pass {field : String × Datum} {ss : List (Statement ρ)} {fields : Attributes} :
      ¬Due s fresh field → (∀ list : ItemList, list.field ≠ field.1) →
        Settles s ref fresh ss fields → Settles s ref fresh ss (field :: fields)
  | assign {property : String} {a : Operand ρ} {v : Datum} {ss : List (Statement ρ)}
      {fields : Attributes} :
      Due s fresh (fieldOf property, v) → Stands s ref (fieldOf property) a v →
        Settles s ref fresh ss fields →
        Settles s ref fresh (Construction.assign property a :: ss) ((fieldOf property, v) :: fields)
  | fill (list : ItemList) {part ss : List (Statement ρ)} {fields : Attributes}
      {items : List (Operand ρ)} : assignments part = [] →
        (∀ other, additions other part = if other = list then items else []) →
        Settles s ref fresh ss fields →
        Settles s ref fresh (part ++ ss)
          ((list.field, .list (items.map (Operand.datum s ref))) :: fields)
  | reorder {ss : List (Statement ρ)} {fields fields' : Attributes} :
      fields.Perm fields' → Settles s ref fresh ss fields → Settles s ref fresh ss fields'

theorem Statement.assignment?_of_isQuiet {statement : Statement ρ} (h : statement.isQuiet = true) :
    statement.assignment? = none := by
  cases statement with
  | assign holder property value =>
    cases holder with
    | result => cases h
    | _ => rfl
  | _ => rfl

theorem Statement.added?_of_isQuiet {statement : Statement ρ} (h : statement.isQuiet = true)
    (list : ItemList) : statement.added? list = none := by
  cases statement with
  | add other item => cases h
  | _ => rfl

theorem Statement.isQuiet_of_animates {statement : Statement ρ} (h : statement.animates = true) :
    statement.isQuiet = true := by
  cases statement with
  | assign holder property value =>
    cases holder with
    | result => cases h
    | _ => rfl
  | add list item => cases h
  | _ => rfl

namespace Settles

variable {s : Settings} {ref : ρ → Datum} {fresh : Attributes} {ss ss' : List (Statement ρ)}
  {fields fields' : Attributes}

theorem append (h : Settles s ref fresh ss fields) (h' : Settles s ref fresh ss' fields') :
    Settles s ref fresh (ss ++ ss') (fields ++ fields') := by
  induction h with
  | done => exact h'
  | skip hquiet _ ih => exact .skip hquiet ih
  | pass hdue hlist _ ih => exact .pass hdue hlist ih
  | assign hdue hstands _ ih => exact .assign hdue hstands ih
  | fill list hassigned hadded _ ih =>
    rw [List.append_assoc]
    exact .fill list hassigned hadded ih
  | reorder hperm _ ih => exact .reorder (hperm.append_right _) ih

theorem of_isQuiet (h : ∀ statement ∈ ss, statement.isQuiet = true) :
    Settles s ref fresh ss [] := by
  induction ss with
  | nil => exact .done
  | cons statement ss ih =>
    rw [List.forall_mem_cons] at h
    exact .skip h.1 (ih h.2)

theorem subperm (h : Settles s ref fresh ss fields) :
    ((assignments ss).map Prod.fst).Subperm (fields.map Prod.fst) := by
  induction h with
  | done => exact List.Subperm.refl _
  | skip hquiet _ ih =>
    rwa [assignments, List.filterMap_cons, Statement.assignment?_of_isQuiet hquiet]
  | pass _ _ _ ih => exact ih.trans (List.sublist_cons_self _ _).subperm
  | assign _ _ _ ih => exact (List.subperm_cons _).mpr ih
  | fill list hassigned _ _ ih =>
    rw [assignments_append, hassigned, List.nil_append]
    exact ih.trans (List.sublist_cons_self _ _).subperm
  | reorder hperm _ ih => exact ih.trans (hperm.map _).subperm

theorem exists_field (h : Settles s ref fresh ss fields) {key : String} {a : Operand ρ}
    (ha : (key, a) ∈ assignments ss) :
    ∃ v, (key, v) ∈ fields ∧ Due s fresh (key, v) ∧ Stands s ref key a v := by
  induction h with
  | done => exact absurd ha List.not_mem_nil
  | skip hquiet _ ih =>
    rw [assignments, List.filterMap_cons, Statement.assignment?_of_isQuiet hquiet] at ha
    exact ih ha
  | pass _ _ _ ih =>
    obtain ⟨v, hv, hrest⟩ := ih ha
    exact ⟨v, List.mem_cons_of_mem _ hv, hrest⟩
  | assign hdue hstands _ ih =>
    rcases List.mem_cons.mp ha with heq | ha
    · cases heq
      exact ⟨_, List.mem_cons_self, hdue, hstands⟩
    · obtain ⟨v, hv, hrest⟩ := ih ha
      exact ⟨v, List.mem_cons_of_mem _ hv, hrest⟩
  | fill list hassigned _ _ ih =>
    rw [assignments_append, hassigned, List.nil_append] at ha
    obtain ⟨v, hv, hrest⟩ := ih ha
    exact ⟨v, List.mem_cons_of_mem _ hv, hrest⟩
  | reorder hperm _ ih =>
    obtain ⟨v, hv, hrest⟩ := ih ha
    exact ⟨v, hperm.mem_iff.mp hv, hrest⟩

theorem exists_assignment (h : Settles s ref fresh ss fields) {key : String} {v : Datum}
    (hv : (key, v) ∈ fields) (hdue : Due s fresh (key, v)) : ∃ a, (key, a) ∈ assignments ss := by
  induction h with
  | done => exact absurd hv List.not_mem_nil
  | skip hquiet _ ih =>
    rw [assignments, List.filterMap_cons, Statement.assignment?_of_isQuiet hquiet]
    exact ih hv
  | pass hnot _ _ ih =>
    rcases List.mem_cons.mp hv with rfl | hv
    · exact absurd hdue hnot
    · exact ih hv
  | assign _ _ _ ih =>
    rcases List.mem_cons.mp hv with heq | hv
    · cases heq
      exact ⟨_, List.mem_cons_self⟩
    · obtain ⟨a, ha⟩ := ih hv
      exact ⟨a, List.mem_cons_of_mem _ ha⟩
  | fill list hassigned _ _ ih =>
    rw [assignments_append, hassigned, List.nil_append]
    rcases List.mem_cons.mp hv with heq | hv
    · cases heq
      exact absurd rfl (hdue.not_list list)
    · exact ih hv
  | reorder hperm _ ih => exact ih (hperm.mem_iff.mpr hv)

theorem additions_eq_nil (h : Settles s ref fresh ss fields) {list : ItemList}
    (hlist : list.field ∉ fields.map Prod.fst) : additions list ss = [] := by
  induction h with
  | done => rfl
  | skip hquiet _ ih =>
    rw [additions, List.filterMap_cons, Statement.added?_of_isQuiet hquiet]
    exact ih hlist
  | pass _ _ _ ih => exact ih fun hmem => hlist (List.mem_cons_of_mem _ hmem)
  | assign _ _ _ ih => exact ih fun hmem => hlist (List.mem_cons_of_mem _ hmem)
  | fill other hassigned hadded _ ih =>
    rw [List.map_cons, List.mem_cons, not_or] at hlist
    rw [additions_append, hadded, ih hlist.2, if_neg fun heq => hlist.1 (by rw [heq])]
    rfl
  | reorder hperm _ ih => exact ih fun hmem => hlist ((hperm.map _).mem_iff.mp hmem)

theorem eq_additions (h : Settles s ref fresh ss fields) (hnodup : (fields.map Prod.fst).Nodup)
    {list : ItemList} {v : Datum} (hv : (list.field, v) ∈ fields) :
    v = .list ((additions list ss).map (Operand.datum s ref)) := by
  induction h with
  | done => exact absurd hv List.not_mem_nil
  | skip hquiet _ ih =>
    rw [additions, List.filterMap_cons, Statement.added?_of_isQuiet hquiet]
    exact ih hnodup hv
  | pass _ hnot _ ih =>
    rcases List.mem_cons.mp hv with rfl | hv
    · exact absurd rfl (hnot list)
    · exact ih hnodup.of_cons hv
  | assign hdue _ _ ih =>
    rcases List.mem_cons.mp hv with heq | hv
    · exact absurd (congrArg Prod.fst heq) (hdue.not_list list)
    · exact ih hnodup.of_cons hv
  | fill other hassigned hadded hrest ih =>
    rw [List.map_cons, List.nodup_cons] at hnodup
    rw [additions_append, hadded]
    rcases List.mem_cons.mp hv with heq | hv
    · rw [Prod.mk.injEq] at heq
      obtain rfl := ItemList.field_inj heq.1
      rw [hrest.additions_eq_nil hnodup.1, if_pos rfl, List.append_nil, heq.2]
    · have hne : list ≠ other := fun heq =>
        hnodup.1 (List.mem_map.mpr ⟨_, hv, congrArg ItemList.field heq⟩)
      rw [if_neg hne]
      exact ih hnodup.2 hv
  | reorder hperm _ ih =>
    exact ih ((hperm.map _).nodup_iff.mpr hnodup) (hperm.mem_iff.mpr hv)

end Settles

/-! ## What the statements make of a new object -/

theorem mem_assignedTo {key : String} {ss : List (Statement ρ)} {a : Operand ρ} :
    a ∈ assignedTo key ss ↔ (key, a) ∈ assignments ss := by
  rw [assignedTo, List.mem_filterMap]
  constructor
  · rintro ⟨entry, hentry, hkey⟩
    split at hkey
    · rename_i heq
      cases hkey
      exact heq ▸ hentry
    · cases hkey
  · exact fun h => ⟨_, h, if_pos rfl⟩

theorem length_assignedTo (key : String) (ss : List (Statement ρ)) :
    (assignedTo key ss).length = ((assignments ss).map Prod.fst).count key := by
  rw [assignedTo]
  induction assignments ss with
  | nil => rfl
  | cons entry entries ih =>
    rw [List.filterMap_cons, List.map_cons, List.count_cons, ← ih]
    by_cases hkey : entry.1 = key <;> simp [hkey]

structure Precedes (fresh fields : Attributes) : Prop where
  nodup : (fresh.map Prod.fst).Nodup
  nodup_fields : (fields.map Prod.fst).Nodup
  subset : fresh.map Prod.fst ⊆ fields.map Prod.fst
  unnamed : "comment" ∉ fresh.map Prod.fst ∧ "target" ∉ fresh.map Prod.fst
  lists : ∀ (list : ItemList) (v : Datum), (list.field, v) ∈ fields →
    (list.field, .list []) ∈ fresh

theorem Settings.admits_of_ordinary (s : Settings) {key : String} (hcomment : key ≠ "comment")
    (htarget : key ≠ "target") (hfixed : key ∉ fixedFields) (v : Datum) :
    s.admits (key, v) = true := by
  simpa [admits, hcomment, htarget] using hfixed

theorem Settings.admits_list (s : Settings) (list : ItemList) (v : Datum) :
    s.admits (list.field, v) = true := by
  refine s.admits_of_ordinary ?_ ?_ ?_ v <;> cases list <;> simp [ItemList.field, fixedFields]

namespace Precedes

variable {s : Settings} {fresh fields : Attributes} {key : String} (hfresh : Precedes fresh fields)

include hfresh

theorem nodup_settable : ((fields.filter s.admits).map Prod.fst).Nodup :=
  (List.filter_sublist.map Prod.fst).nodup hfresh.nodup_fields

theorem lookup_settable_iff {v : Datum} :
    (fields.filter s.admits).lookup key = some v ↔ (key, v) ∈ fields ∧ s.admits (key, v) = true := by
  rw [lookup_eq_some_iff_mem hfresh.nodup_settable, List.mem_filter]

theorem due_of_lookup (hkey : ∀ list : ItemList, list.field ≠ key) {v : Datum}
    (hv : (fields.filter s.admits).lookup key = some v)
    (hdiffers : ∀ standard, fresh.lookup key = some standard → ¬v.Same standard) :
    (key, v) ∈ fields ∧ Due s fresh (key, v) := by
  obtain ⟨hmem, hadmitted⟩ := hfresh.lookup_settable_iff.mp hv
  exact ⟨hmem, hadmitted, hkey, fun standard hstandard =>
    hdiffers standard ((lookup_eq_some_iff_mem hfresh.nodup).mpr hstandard)⟩

theorem lookup_fresh_of_none (hfixed : key ∉ fixedFields)
    (hnone : (fields.filter s.admits).lookup key = none) : fresh.lookup key = none := by
  rw [lookup_eq_none_iff_key] at hnone ⊢
  intro hmem
  obtain ⟨field, hfield, rfl⟩ := List.mem_map.mp (hfresh.subset hmem)
  refine hnone (List.mem_map_of_mem (List.mem_filter.mpr ⟨hfield, ?_⟩))
  refine s.admits_of_ordinary ?_ ?_ hfixed field.2
  · exact fun heq => hfresh.unnamed.1 (heq ▸ hmem)
  · exact fun heq => hfresh.unnamed.2 (heq ▸ hmem)

end Precedes

namespace Settles

variable {s : Settings} {ref : ρ → Datum} {fresh : Attributes} {ss : List (Statement ρ)}
  {fields : Attributes} {key : String}

theorem length_assignedTo_le (h : Settles s ref fresh ss fields) (hfresh : Precedes fresh fields)
    (key : String) : (assignedTo key ss).length ≤ 1 := by
  rw [length_assignedTo]
  exact (h.subperm.count_le key).trans (List.nodup_iff_count_le_one.mp hfresh.nodup_fields key)

theorem assignedTo_list (h : Settles s ref fresh ss fields) (list : ItemList) :
    assignedTo list.field ss = [] := by
  refine List.eq_nil_iff_forall_not_mem.mpr fun a ha => ?_
  obtain ⟨v, _, hdue, _⟩ := h.exists_field (mem_assignedTo.mp ha)
  exact hdue.not_list list rfl

theorem exists_settable (h : Settles s ref fresh ss fields) (hfresh : Precedes fresh fields)
    {a : Operand ρ} (ha : a ∈ assignedTo key ss) :
    ∃ v, (fields.filter s.admits).lookup key = some v ∧ Stands s ref key a v ∧
      ∀ standard, fresh.lookup key = some standard → ¬v.Same standard := by
  obtain ⟨v, hv, hdue, hstands⟩ := h.exists_field (mem_assignedTo.mp ha)
  refine ⟨v, hfresh.lookup_settable_iff.mpr ⟨hv, hdue.admitted⟩, hstands, fun standard hlookup => ?_⟩
  exact hdue.differs standard ((lookup_eq_some_iff_mem hfresh.nodup).mp hlookup)

theorem assignedTo_ne_nil_iff (h : Settles s ref fresh ss fields) (hfresh : Precedes fresh fields)
    (hkey : ∀ list : ItemList, list.field ≠ key) :
    assignedTo key ss ≠ [] ↔ ∃ v, (fields.filter s.admits).lookup key = some v ∧
      ∀ standard, fresh.lookup key = some standard → ¬v.Same standard := by
  constructor
  · intro hne
    obtain ⟨a, ha⟩ := List.exists_mem_of_ne_nil _ hne
    obtain ⟨v, hv, _, hdiffers⟩ := h.exists_settable hfresh ha
    exact ⟨v, hv, hdiffers⟩
  · rintro ⟨v, hv, hdiffers⟩
    obtain ⟨hmem, hdue⟩ := hfresh.due_of_lookup hkey hv hdiffers
    obtain ⟨a, ha⟩ := h.exists_assignment hmem hdue
    exact List.ne_nil_of_mem (mem_assignedTo.mpr ha)

theorem rel_lookup_list (h : Settles s ref fresh ss fields) (hfresh : Precedes fresh fields)
    (list : ItemList) (d : CSharp.Dialect) :
    Option.Rel (CSharp.Alike d s list.field) ((fields.filter s.admits).lookup list.field)
      ((performAll s ref fresh ss).lookup list.field) := by
  have hassigned := h.assignedTo_list list
  cases hlookup : (fields.filter s.admits).lookup list.field with
  | some v =>
    obtain ⟨hmem, _⟩ := hfresh.lookup_settable_iff.mp hlookup
    have hempty := (lookup_eq_some_iff_mem hfresh.nodup).mpr (hfresh.lists list v hmem)
    rw [lookup_performAll_list s ref hempty hassigned, List.nil_append,
      h.eq_additions hfresh.nodup_fields hmem]
    exact .some (.inl rfl)
  | none =>
    have habsent : list.field ∉ fields.map Prod.fst := by
      intro hmem
      obtain ⟨field, hfield, hkey⟩ := List.mem_map.mp hmem
      refine lookup_eq_none_iff_key.mp hlookup (List.mem_map.mpr ⟨field, ?_, hkey⟩)
      have hadmits := s.admits_list list field.2
      rw [← hkey] at hadmits
      exact List.mem_filter.mpr ⟨hfield, hadmits⟩
    have hadded (other : ItemList) (hother : other.field = list.field) :
        additions other ss = [] :=
      h.additions_eq_nil (hother ▸ habsent)
    have hfixed : list.field ∉ fixedFields := by cases list <;> simp [ItemList.field, fixedFields]
    rw [lookup_performAll s ref hadded, hassigned, hfresh.lookup_fresh_of_none hfixed hlookup]
    exact .none

theorem rel_lookup_ordinary (h : Settles s ref fresh ss fields) (hfresh : Precedes fresh fields)
    (hkey : ∀ list : ItemList, list.field ≠ key) (hfixed : key ∉ fixedFields) (d : CSharp.Dialect) :
    Option.Rel (CSharp.Alike d s key) ((fields.filter s.admits).lookup key)
      ((performAll s ref fresh ss).lookup key) := by
  rw [lookup_performAll s ref fun list hlist => absurd hlist (hkey list)]
  have hlength := h.length_assignedTo_le hfresh key
  rcases hassigned : assignedTo key ss with _ | ⟨a, rest⟩
  · cases hlookup : (fields.filter s.admits).lookup key with
    | none =>
      rw [hfresh.lookup_fresh_of_none hfixed hlookup]
      exact .none
    | some v =>
      -- A property that is not assigned has a value of a new object.
      have hnot := mt (h.assignedTo_ne_nil_iff hfresh hkey).mpr (not_not.mpr hassigned)
      push Not at hnot
      obtain ⟨standard, hstandard, hsame⟩ := hnot v hlookup
      rw [hstandard]
      exact .some (CSharp.alike_of_same d s key hsame)
  · obtain ⟨v, hv, hstands, _⟩ := h.exists_settable hfresh (hassigned ▸ List.mem_cons_self)
    rw [hassigned, List.length_cons] at hlength
    obtain rfl := List.eq_nil_of_length_eq_zero (by omega : rest.length = 0)
    rw [hv]
    exact .some (CSharp.alike_of_same d s key hstands.same)

theorem rel_lookup_performAll (h : Settles s ref fresh ss fields) (hfresh : Precedes fresh fields)
    (hfixed : key ∉ fixedFields) (d : CSharp.Dialect) :
    Option.Rel (CSharp.Alike d s key) ((fields.filter s.admits).lookup key)
      ((performAll s ref fresh ss).lookup key) := by
  by_cases hlist : ∃ list : ItemList, list.field = key
  · obtain ⟨list, rfl⟩ := hlist
    exact h.rel_lookup_list hfresh list d
  · exact h.rel_lookup_ordinary hfresh (not_exists.mp hlist) hfixed d

end Settles

/-- Statements that make a new object, with the fields `fresh`, one with the settable properties
`own`. -/
structure Restores (s : Settings) (ref : ρ → Datum) (fresh own : Attributes)
    (ss : List (Statement ρ)) : Prop where
  once : ∀ key, (assignedTo key ss).length ≤ 1
  lists : ∀ list : ItemList, assignedTo list.field ss = []
  assigned_iff : ∀ key, (∀ list : ItemList, list.field ≠ key) →
    (assignedTo key ss ≠ [] ↔ ∃ v, own.lookup key = some v ∧
      ∀ standard, fresh.lookup key = some standard → ¬v.Same standard)
  stands : ∀ key, ∀ a ∈ assignedTo key ss, ∃ v, own.lookup key = some v ∧ Stands s ref key a v
  restored : ∀ key ∉ fixedFields, ∀ d, Option.Rel (CSharp.Alike d s key) (own.lookup key)
    ((performAll s ref fresh ss).lookup key)

theorem Settles.restores {s : Settings} {ref : ρ → Datum} {fresh fields : Attributes}
    {ss : List (Statement ρ)} (h : Settles s ref fresh ss fields) (hfresh : Precedes fresh fields) :
    Restores s ref fresh (fields.filter s.admits) ss where
  once := h.length_assignedTo_le hfresh
  lists := h.assignedTo_list
  assigned_iff _ hkey := h.assignedTo_ne_nil_iff hfresh hkey
  stands _ _ ha := by
    obtain ⟨v, hv, hstands, _⟩ := h.exists_settable hfresh ha
    exact ⟨v, hv, hstands⟩
  restored _ hfixed d := h.rel_lookup_performAll hfresh hfixed d

section Renamed

variable {σ : Type} {f : ρ → σ} {s : Settings} {ref : σ → Datum}

theorem Stands.of_map {key : String} {a : Operand ρ} {v : Datum}
    (h : Stands s ref key (a.map f) v) : Stands s (ref ∘ f) key a v := by
  refine ⟨Operand.datum_map f s ref a ▸ h.same, ?_⟩
  cases a with
  | object r =>
    rcases h.text with ⟨r', heq, hv⟩ | htext
    · cases heq
      exact .inl ⟨r, rfl, hv⟩
    · -- an object is written as it is obtained, so no text is that of every access
      have htwo := (htext {} fun _ => .field "").symm.trans (htext {} fun _ => .field "_")
      simp [CSharp.operand, Access.text] at htwo
  | _ =>
    refine .inr fun d access => ?_
    rcases h.text with ⟨_, heq, _⟩ | htext
    · cases heq
    · exact htext d fun _ => .field ""

theorem Restores.of_map {fresh own : Attributes} {ss : List (Statement ρ)}
    (h : Restores s ref fresh own (ss.map (Statement.map f))) :
    Restores s (ref ∘ f) fresh own ss where
  once key := by
    have honce := h.once key
    rwa [assignedTo_map, List.length_map] at honce
  lists list := by
    have hlist := h.lists list
    rwa [assignedTo_map, List.map_eq_nil_iff] at hlist
  assigned_iff key hkey := by
    rw [← h.assigned_iff key hkey, assignedTo_map, ne_eq, ne_eq, List.map_eq_nil_iff]
  stands key a ha := by
    obtain ⟨v, hv, hstands⟩ := h.stands key (a.map f) (by
      rw [assignedTo_map]
      exact List.mem_map_of_mem ha)
    exact ⟨v, hv, hstands.of_map⟩
  restored key hfixed d := by
    have hrestored := h.restored key hfixed d
    rwa [performAll_map] at hrestored

end Renamed

end SceneCompiler
