import Mathlib.Data.List.Forall2
import SceneCompiler.Proofs.Model.Lookup
import SceneCompiler.Sketch.Compositor

/-!
# Creation of objects

A value is shown as it was stored, whatever is stored after it.  So the compositor creates an object
with the fields of its prototype, apart from those that arguments set; without its argument such a field
is absent.
-/

namespace SceneCompiler

def Datum.isAbsent : Datum → Bool
  | .absent => true
  | _ => false

/-- The values in new objects: plain ones, empty lists and tables, and records that are shown by their
fields and not by a name. -/
inductive Datum.Plain : Datum → Prop where
  | flag (value : Bool) : Plain (.flag value)
  | number (value : Number) : Plain (.number value)
  | text (value : String) : Plain (.text value)
  | list : Plain (.list [])
  | table : Plain (.table [])
  | record {fields : Attributes} : (∀ field ∈ fields, Plain field.2) →
      (∀ type, ("type", .text type) ∈ fields →
        type = "CompositionPropertySet" ∨ type = "AnimationController") → Plain (.record fields)

attribute [simp] Datum.Plain.flag Datum.Plain.number Datum.Plain.text Datum.Plain.list
  Datum.Plain.table

theorem Datum.Plain.isAbsent {d : Datum} (h : d.Plain) : d.isAbsent = false := by
  cases h <;> rfl

namespace Sketch

/-! ## Stored values -/

def Grows (s s' : Sketch) : Prop :=
  ∀ (address : Nat) (cell : Cell), s.cells[address]? = some cell → s'.cells[address]? = some cell

structure Extends (s s' : Sketch) : Prop where
  grows : s.Grows s'
  names : s'.names = s.names
  size_le : s.cells.size ≤ s'.cells.size

theorem Extends.refl (s : Sketch) : s.Extends s :=
  ⟨fun _ _ h => h, rfl, Nat.le_refl _⟩

theorem Extends.trans {s s' s'' : Sketch} (h : s.Extends s') (h' : s'.Extends s'') :
    s.Extends s'' :=
  ⟨fun address cell hcell => h'.grows address cell (h.grows address cell hcell),
    h'.names.trans h.names, Nat.le_trans h.size_le h'.size_le⟩

theorem extends_allocate (s : Sketch) (cell : Cell) : s.Extends (s.allocate cell).2 := by
  refine ⟨fun address old hold => ?_, rfl, ?_⟩
  · obtain ⟨hlt, _⟩ := Array.getElem?_eq_some_iff.mp hold
    rw [allocate, Array.getElem?_push_lt hlt]
    rwa [Array.getElem?_eq_getElem hlt] at hold
  · simp [allocate]

/-- What was stored between two sketches is shown from then on.  The cells between them are deep
enough. -/
def Shows (s s' : Sketch) (slot : Slot) (d : Datum) : Prop :=
  ∀ final : Sketch, s'.Grows final → ∀ fuel, s'.cells.size ≤ fuel + s.cells.size →
    final.view fuel slot = d

theorem Shows.mono {s s' t t' : Sketch} {slot : Slot} {d : Datum} (h : s.Shows s' slot d)
    (ht : t.Extends s) (ht' : s'.Extends t') : t.Shows t' slot d := by
  refine fun final hfinal fuel hfuel => h final ?_ fuel ?_
  · exact fun address cell hcell => hfinal address cell (ht'.grows address cell hcell)
  · have := ht.size_le
    have := ht'.size_le
    omega

def Match (s s' : Sketch) (field : String × Datum) (entry : String × Slot) : Prop :=
  field.1 = entry.1 ∧ (field.2.Plain → s.Shows s' entry.2 field.2)

theorem storeFields_spec {fields : Attributes}
    (hstore : ∀ field ∈ fields, ∀ s : Sketch, s.Extends (s.store field.2).2 ∧
      (field.2.Plain → s.Shows (s.store field.2).2 (s.store field.2).1 field.2)) (s : Sketch) :
    s.Extends (s.storeFields fields).2 ∧
      List.Forall₂ (s.Match (s.storeFields fields).2) fields (s.storeFields fields).1 := by
  induction fields generalizing s with
  | nil =>
    rw [storeFields]
    exact ⟨.refl s, .nil⟩
  | cons field fields ih =>
    rw [List.forall_mem_cons] at hstore
    obtain ⟨hfirst, hshows⟩ := hstore.1 s
    obtain ⟨hrest, hmatch⟩ := ih hstore.2 (s.store field.2).2
    rw [storeFields]
    refine ⟨hfirst.trans hrest, .cons ⟨rfl, fun hplain => ?_⟩ (hmatch.imp fun f e h => ?_)⟩
    · exact (hshows hplain).mono (.refl s) hrest
    · exact ⟨h.1, fun hplain => (h.2 hplain).mono hfirst (.refl _)⟩

theorem view_absent (s : Sketch) (fuel : Nat) : s.view fuel .absent = .absent := by
  cases fuel <;> rfl

theorem view_text (s : Sketch) (fuel : Nat) (text : String) :
    s.view fuel (.text text) = .text text := by
  cases fuel <;> rfl

theorem view_cell {s : Sketch} {address : Nat} {cell : Cell} (hcell : s.cells[address]? = some cell)
    (htype : ∀ fields type, cell = .record fields → fields.get "type" = .text type →
      type = "CompositionPropertySet" ∨ type = "AnimationController") (fuel : Nat) :
    s.view (fuel + 1) (.cell address) = s.contents (s.view fuel) address := by
  have hlabel : s.label? address = none := by
    unfold label? fields cell?
    dsimp only
    rw [hcell]
    cases cell with
    | list items => rfl
    | table entries => rfl
    | record fields =>
      dsimp only
      cases hslot : fields.get "type" with
      | text type =>
        rcases htype fields type rfl hslot with rfl | rfl <;> rfl
      | _ => rfl
  rw [view, hlabel]

theorem shows_allocate {s s' : Sketch} (hs : s.Extends s') {cell : Cell} {d : Datum}
    (htype : ∀ fields type, cell = .record fields → fields.get "type" = .text type →
      type = "CompositionPropertySet" ∨ type = "AnimationController")
    (hcontents : ∀ final : Sketch, s'.Grows final → final.cells[s'.cells.size]? = some cell →
      ∀ fuel, s'.cells.size ≤ fuel + s.cells.size →
        final.contents (final.view fuel) s'.cells.size = d) :
    s.Shows (s'.allocate cell).2 (s'.allocate cell).1 d := by
  intro final hfinal fuel hfuel
  have hsize : (s'.allocate cell).2.cells.size = s'.cells.size + 1 := by simp [allocate]
  have hle := hs.size_le
  obtain ⟨fuel, rfl⟩ : ∃ k, fuel = k + 1 := ⟨fuel - 1, by omega⟩
  have hcell : final.cells[s'.cells.size]? = some cell := hfinal _ _ (by simp [allocate])
  rw [allocate, view_cell hcell htype]
  refine hcontents final (fun address old hold => ?_) hcell fuel (by omega)
  exact hfinal address old ((s'.extends_allocate cell).grows address old hold)

theorem store_plain {d : Datum} (h : d.Plain) (s : Sketch) :
    s.Extends (s.store d).2 ∧ s.Shows (s.store d).2 (s.store d).1 d := by
  induction h generalizing s with
  | flag value | number value | text value =>
    rw [store]
    refine ⟨.refl s, fun final _ fuel _ => ?_⟩
    cases fuel <;> rfl
  | list =>
    rw [store, storeAll]
    refine ⟨s.extends_allocate _, shows_allocate (.refl s) (by simp) fun final _ hcell _ _ => ?_⟩
    rw [contents, hcell]
    rfl
  | table =>
    rw [store, storeFields]
    refine ⟨s.extends_allocate _, shows_allocate (.refl s) (by simp) fun final _ hcell _ _ => ?_⟩
    rw [contents, hcell]
    rfl
  | @record fields hplain hunlabelled ih =>
    obtain ⟨hextends, hmatch⟩ := storeFields_spec (fun field hfield s =>
      ⟨(ih field hfield s).1, fun _ => (ih field hfield s).2⟩) s
    rw [store]
    refine ⟨hextends.trans (extends_allocate _ _), shows_allocate hextends ?_ ?_⟩
    · intro slots type hslots htype
      cases hslots
      -- A type that is held as a text was stored as one.
      have hlookup : (s.storeFields fields).1.lookup "type" = some (.text type) := by
        rw [Slots.get] at htype
        cases hslot : (s.storeFields fields).1.lookup "type" with
        | none => cases hslot ▸ htype
        | some slot => rw [← htype, hslot, Option.getD_some]
      obtain ⟨field, hfield, hkey, hshows⟩ := exists_of_forall₂ hmatch (mem_of_lookup hlookup)
      have htext : Datum.text type = field.2 := by
        rw [← hshows (hplain field hfield) _ (fun _ _ h => h) _ (Nat.le_add_right _ _),
          view_text]
      have heq : field = ("type", .text type) := Prod.ext hkey htext.symm
      exact hunlabelled type (heq ▸ hfield)
    · intro final hfinal hcell fuel hfuel
      rw [contents, hcell]
      dsimp only
      congr 1
      rw [eq_comm, ← List.forall₂_eq_eq_eq, List.forall₂_map_right_iff]
      refine ((List.forall₂_and_left _ _).mpr ⟨hplain, hmatch⟩).imp fun field entry h => ?_
      exact Prod.ext h.2.1 (h.2.2 h.1 final hfinal fuel hfuel).symm

/-! ## Arguments -/

def Gives (s : Sketch) (given value : Datum) : Prop :=
  (given.Plain ∧ value = given) ∨ ∃ name address label, given = .ref name ∧
    s.find name = .cell address ∧ s.label? address = some label ∧ value = .text ("@" ++ label)

def Presents (s s' : Sketch) (value : Datum) (slot : Slot) : Prop :=
  s.Shows s' slot value ∨ ∃ address label, slot = .cell address ∧ s.label? address = some label ∧
    value = .text ("@" ++ label)

theorem fields_grows {s s' : Sketch} (h : s.Grows s') {slot : Slot} {name : String}
    (hname : (s.fields slot).get name ≠ .absent) : s'.fields slot = s.fields slot := by
  cases slot with
  | cell address =>
    cases hcell : s.cells[address]? with
    | none =>
      simp [fields, cell?, hcell, Slots.get] at hname
    | some cell => simp only [fields, cell?, hcell, h address cell hcell]
  | _ => rfl

theorem find_extends {s s' : Sketch} (h : s.Extends s') {name : String} {address : Nat}
    (hfind : s.find name = .cell address) : s'.find name = .cell address := by
  rw [find] at hfind ⊢
  rw [h.names]
  cases howner : (ownerName? name).bind fun owner => s.names.lookup owner with
  | none =>
    rw [howner] at hfind
    exact hfind
  | some owner =>
    rw [howner] at hfind
    dsimp only at hfind ⊢
    have hpresent : (s.fields owner).get "properties" ≠ .absent := by
      rw [hfind]
      simp
    rw [fields_grows h.grows hpresent, hfind]

theorem store_gives {s s' : Sketch} (hs : s.Extends s') {given value : Datum}
    (h : s.Gives given value) :
    s'.Extends (s'.store given).2 ∧ s.Presents (s'.store given).2 value (s'.store given).1 := by
  rcases h with ⟨hplain, rfl⟩ | ⟨name, address, label, rfl, hfind, hlabel, rfl⟩
  · obtain ⟨hextends, hshows⟩ := store_plain hplain s'
    exact ⟨hextends, .inl (hshows.mono hs (.refl _))⟩
  · rw [store]
    exact ⟨.refl s', .inr ⟨address, label, find_extends hs hfind, hlabel, rfl⟩⟩

theorem storeAll_spec {s s' : Sketch} (hs : s.Extends s') {given values : List Datum}
    (h : List.Forall₂ s.Gives given values) :
    s'.Extends (s'.storeAll given).2 ∧
      List.Forall₂ (s.Presents (s'.storeAll given).2) values (s'.storeAll given).1 := by
  induction h generalizing s' with
  | nil =>
    rw [storeAll]
    exact ⟨.refl s', .nil⟩
  | cons hfirst _ ih =>
    obtain ⟨hextends, hpresents⟩ := store_gives hs hfirst
    obtain ⟨hrest, hall⟩ := ih (hs.trans hextends)
    rw [storeAll]
    refine ⟨hextends.trans hrest, .cons ?_ hall⟩
    exact hpresents.imp (fun hshows => hshows.mono (.refl s) hrest) id

end Sketch

/-! ## Slots by name -/

namespace Slots

variable (slots : Slots) (name : String) (value : Slot)

theorem lookup_set (key : String) :
    (slots.set name value).lookup key = if name = key then some value else slots.lookup key := by
  induction slots with
  | nil => rw [set, lookup_cons_text]
  | cons entry slots ih =>
    rcases entry with ⟨other, old⟩
    rw [set]
    split
    · rename_i hother
      rw [lookup_cons_text, lookup_cons_text, hother]
      split <;> rfl
    · rename_i hother
      rw [lookup_cons_text, lookup_cons_text, ih]
      by_cases hkey : other = key
      · rw [if_pos hkey, if_pos hkey, if_neg fun heq => hother (hkey.trans heq.symm)]
      · rw [if_neg hkey, if_neg hkey]

theorem map_fst_set (h : name ∈ slots.map Prod.fst) :
    (slots.set name value).map Prod.fst = slots.map Prod.fst := by
  induction slots with
  | nil => cases h
  | cons entry slots ih =>
    rcases entry with ⟨other, old⟩
    rw [set]
    split
    · rename_i hother
      rw [List.map_cons, List.map_cons, hother]
    · rename_i hother
      rw [List.map_cons, List.mem_cons] at h
      rw [List.map_cons, List.map_cons, ih (h.resolve_left fun heq => hother heq.symm)]

theorem set_of_not_mem (h : name ∉ slots.map Prod.fst) :
    slots.set name value = slots ++ [(name, value)] := by
  induction slots with
  | nil => rfl
  | cons entry slots ih =>
    rcases entry with ⟨other, old⟩
    rw [List.map_cons, List.mem_cons, not_or] at h
    rw [set, if_neg fun heq => h.1 heq.symm, ih h.2, List.cons_append]

end Slots

namespace Compositor

theorem lookup_apply {names : List String} (hnodup : names.Nodup) (hmatrix : "matrix" ∉ names)
    (fields : Slots) (slots : List Slot) (key : String) :
    (apply fields names slots).lookup key =
      if key ∈ names then some (((names.zip slots).lookup key).getD .absent)
      else fields.lookup key := by
  induction names generalizing fields slots with
  | nil => rfl
  | cons name names ih =>
    rw [List.nodup_cons] at hnodup
    rw [List.mem_cons, not_or] at hmatrix
    have hname : (name == "matrix") = false := beq_false_of_ne (Ne.symm hmatrix.1)
    rw [apply, hname, Bool.false_and, if_neg Bool.false_ne_true, ih hnodup.2 hmatrix.2,
      Slots.lookup_set]
    by_cases hkey : name = key
    · subst hkey
      rw [if_neg hnodup.1, if_pos rfl, if_pos List.mem_cons_self]
      cases slots with
      | nil => rfl
      | cons slot slots =>
        rw [List.zip_cons_cons, lookup_cons_text, if_pos rfl]
        rfl
    · have hmem : key ∈ name :: names ↔ key ∈ names := by
        rw [List.mem_cons, or_iff_right (Ne.symm hkey)]
      simp only [hmem, if_neg hkey]
      cases slots with
      | nil =>
        rw [List.tail_nil, List.zip_nil_right, List.zip_nil_right]
      | cons slot slots =>
        rw [List.zip_cons_cons, lookup_cons_text, if_neg hkey, List.tail_cons]

theorem map_fst_apply {names : List String} (hmatrix : "matrix" ∉ names) {fields : Slots}
    (hnames : names ⊆ fields.map Prod.fst) (slots : List Slot) :
    (apply fields names slots).map Prod.fst = fields.map Prod.fst := by
  induction names generalizing fields slots with
  | nil => rfl
  | cons name names ih =>
    rw [List.mem_cons, not_or] at hmatrix
    rw [List.cons_subset] at hnames
    have hname : (name == "matrix") = false := beq_false_of_ne (Ne.symm hmatrix.1)
    have hset := fields.map_fst_set name (slots.head?.getD .absent) hnames.1
    rw [apply, hname, Bool.false_and, if_neg Bool.false_ne_true, ih hmatrix.2 (hset ▸ hnames.2),
      hset]

theorem extend_nil (fields : Slots) :
    extend fields [] = (fields.filter fun f => f.1 != "type") ++ [("type", fields.get "type")] := by
  refine Slots.set_of_not_mem _ _ _ fun hmem => ?_
  obtain ⟨field, hfield, htype⟩ := List.mem_map.mp hmem
  have hne := (List.mem_filter.mp hfield).2
  simp [htype] at hne

theorem perm_extend_nil {fields : Slots} (hnodup : (fields.map Prod.fst).Nodup)
    (htype : "type" ∈ fields.map Prod.fst) : (extend fields []).Perm fields := by
  obtain ⟨⟨_, slot⟩, hfield, rfl⟩ := List.mem_map.mp htype
  have hget : fields.get "type" = slot := by
    rw [Slots.get, lookup_of_mem_nodup hnodup hfield, Option.getD_some]
  obtain ⟨before, after, rfl⟩ := List.append_of_mem hfield
  rw [List.map_append, List.map_cons, List.nodup_append, List.nodup_cons] at hnodup
  have hother {part : Slots} (hpart : "type" ∉ part.map Prod.fst) :
      part.filter (fun f => f.1 != "type") = part :=
    List.filter_eq_self.mpr fun f hf =>
      bne_iff_ne.mpr fun heq => hpart (heq ▸ List.mem_map_of_mem hf)
  have hbefore : "type" ∉ before.map Prod.fst :=
    fun hmem => hnodup.2.2 "type" hmem "type" List.mem_cons_self rfl
  rw [extend_nil, hget, List.filter_append, List.filter_cons, hother hbefore, hother hnodup.2.1.1]
  simp only [bne_self_eq_false, Bool.false_eq_true, if_false, List.append_assoc]
  exact (List.perm_append_singleton _ _).append_left before

def Creates (method : String) (arguments : List Datum) (fresh : Attributes) : Prop :=
  ∀ (s : Sketch) (name : String) (given : List Datum), List.Forall₂ s.Gives given arguments →
    ∃ s' slot shown, create? s name method given = some s' ∧ s'.names.lookup name = some slot ∧
      s'.shownObject slot = .record shown ∧
      (shown.filter fun field => !field.2.isAbsent).Perm fresh

theorem Creates.perm {method : String} {arguments : List Datum} {fresh fresh' : Attributes}
    (h : Creates method arguments fresh) (hperm : fresh.Perm fresh') :
    Creates method arguments fresh' := by
  intro s name given hgiven
  obtain ⟨s', slot, shown, hcreate, hslot, hshown, hfresh⟩ := h s name given hgiven
  exact ⟨s', slot, shown, hcreate, hslot, hshown, hfresh.trans hperm⟩

end Compositor

namespace Sketch

def withObject (s : Sketch) (name : String) (fields : Slots) : Sketch :=
  (s.allocate (.record fields)).2.bind name (.cell s.cells.size)

section WithObject

variable (s : Sketch) (name : String) (fields : Slots)

theorem grows_withObject : s.Grows (s.withObject name fields) :=
  (s.extends_allocate (.record fields)).grows

theorem size_withObject : (s.withObject name fields).cells.size = s.cells.size + 1 :=
  Array.size_push _

theorem shownObject_withObject :
    (s.withObject name fields).shownObject (.cell s.cells.size) =
      .record (fields.map fun e => (e.1, (s.withObject name fields).shown e.2)) := by
  have hcell : (s.withObject name fields).cells[s.cells.size]? = some (.record fields) :=
    Array.getElem?_push_size
  rw [shownObject, contents, hcell]

end WithObject

theorem label?_withObject {s s' : Sketch} (hs : s.Extends s') {address : Nat} {label : String}
    (hlabel : s.label? address = some label) (name : String) (fields : Slots) :
    (s'.withObject name fields).label? address = some label := by
  have htype : (s.fields (.cell address)).get "type" ≠ .absent := by
    intro hnone
    rw [label?, hnone] at hlabel
    cases hlabel
  have hgrows : s.Grows (s'.withObject name fields) := fun address cell hcell =>
    s'.grows_withObject name fields address cell (hs.grows address cell hcell)
  have hlt : address < s.cells.size := by
    by_contra hge
    refine htype ?_
    simp [Sketch.fields, cell?, Array.getElem?_eq_none (Nat.le_of_not_lt hge), Slots.get]
  have hle := hs.size_le
  rw [label?, fields_grows hgrows htype]
  rw [label?] at hlabel
  have hnames : (s'.withObject name fields).names = (name, .cell s'.cells.size) :: s.names :=
    congrArg _ hs.names
  rw [hnames, List.find?_cons_of_neg]
  · exact hlabel
  · simp
    omega

theorem Presents.shown {s s' : Sketch} (hs : s.Extends s') {value : Datum} {slot : Slot}
    (h : s.Presents s' value slot) (name : String) (fields : Slots) :
    (s'.withObject name fields).shown slot = value := by
  have hsize := s'.size_withObject name fields
  rcases h with hshows | ⟨address, label, rfl, hlabel, rfl⟩
  · exact hshows _ (s'.grows_withObject name fields) _ (by omega)
  · rw [Sketch.shown, hsize, view, label?_withObject hs hlabel]

theorem Gives.isAbsent {s : Sketch} {given value : Datum} (h : s.Gives given value) :
    value.isAbsent = false := by
  rcases h with ⟨hplain, rfl⟩ | ⟨_, _, _, _, _, _, rfl⟩
  · exact hplain.isAbsent
  · rfl

end Sketch

namespace Compositor

theorem create?_eq (s : Sketch) (name : String) {method : String} {fields : Attributes}
    {names : List String} (hmethod : prototype? method = some (fields, names)) (given : List Datum)
    (hlength : ((s.storeFields fields).2.storeAll given).1.length ≤ names.length) :
    ∃ slots, create? s name method given =
        some (((s.storeFields fields).2.storeAll given).2.withObject name slots) ∧
      (slots = apply (s.storeFields fields).1 names ((s.storeFields fields).2.storeAll given).1 ∨
        slots = extend
          (apply (s.storeFields fields).1 names ((s.storeFields fields).2.storeAll given).1) []) := by
  have hnone : ((s.storeFields fields).2.storeAll given).1[names.length]? = none :=
    List.getElem?_eq_none hlength
  rw [create?, hmethod]
  simp only [Option.map_some, hnone, Option.getD_none]
  cases takesFields method with
  | true => exact ⟨_, rfl, .inr rfl⟩
  | false => exact ⟨_, rfl, .inl rfl⟩

theorem sublist_zip (names : List String) {α : Type} (values : List α) :
    ((names.zip values).map Prod.fst).Sublist names := by
  induction names generalizing values with
  | nil => exact .slnil
  | cons name names ih =>
    cases values with
    | nil => exact List.nil_sublist _
    | cons value values => exact (ih values).cons_cons name

theorem forall₂_zip (names : List String) {α β : Type} {R : α → β → Prop} {as : List α}
    {bs : List β} (h : List.Forall₂ R as bs) :
    List.Forall₂ (fun e e' => e.1 = e'.1 ∧ R e.2 e'.2) (names.zip as) (names.zip bs) := by
  induction h generalizing names with
  | nil => simp
  | cons hab _ ih =>
    cases names with
    | nil => exact .nil
    | cons name names => exact .cons ⟨rfl, hab⟩ (ih names)

structure IsPrototype (fields : Attributes) (names : List String) : Prop where
  nodup : (fields.map Prod.fst).Nodup
  typed : "type" ∈ fields.map Prod.fst
  storable : ∀ field ∈ fields, field.2.Plain ∨ field.1 ∈ names ∧ ∃ name, field.2 = .ref name
  nodup_names : names.Nodup
  subset : names ⊆ fields.map Prod.fst
  not_matrix : "matrix" ∉ names

section Fresh

variable {fields : Attributes} {names : List String} {entries : Slots} {values : List Slot}
  {arguments : List Datum} {shown : Slot → Datum}

theorem shown_argument_iff
    (hvalues : List.Forall₂ (fun value slot => shown slot = value) arguments values)
    (habsent : shown .absent = .absent)
    (hpresent : ∀ value ∈ arguments, value.isAbsent = false) (key : String) (value : Datum) :
    shown (((names.zip values).lookup key).getD .absent) = value ∧ value.isAbsent = false ↔
      (names.zip arguments).lookup key = some value := by
  have hrel := rel_lookup (forall₂_zip names hvalues) key
  cases hargument : (names.zip arguments).lookup key with
  | none =>
    rw [hargument] at hrel
    generalize (names.zip values).lookup key = slot at hrel
    cases hrel
    rw [Option.getD_none, habsent]
    simp only [reduceCtorEq, iff_false, not_and]
    rintro rfl
    exact Bool.noConfusion
  | some argument =>
    rw [hargument] at hrel
    generalize (names.zip values).lookup key = slot at hrel
    cases hrel with
    | some hshown =>
      have hin : argument ∈ arguments := (List.of_mem_zip (mem_of_lookup hargument)).2
      rw [Option.getD_some, hshown, Option.some.injEq]
      exact and_iff_left_of_imp fun heq => heq ▸ hpresent argument hin

theorem shown_field_iff
    (hentries : List.Forall₂ (fun field entry => field.1 = entry.1 ∧
      (field.2.Plain → shown entry.2 = field.2)) fields entries) {key : String}
    (hplain : ∀ standard, fields.lookup key = some standard → standard.Plain) (value : Datum) :
    (∃ slot, entries.lookup key = some slot ∧ shown slot = value) ∧ value.isAbsent = false ↔
      fields.lookup key = some value := by
  have hrel := rel_lookup (R := fun d slot => d.Plain → shown slot = d) hentries key
  cases hfield : fields.lookup key with
  | none =>
    rw [hfield] at hrel
    generalize entries.lookup key = slot at hrel
    cases hrel
    simp
  | some standard =>
    rw [hfield] at hrel
    generalize entries.lookup key = slot at hrel
    cases hrel with
    | some hshown =>
      have hstandard := hplain standard hfield
      simp only [Option.some.injEq, exists_eq_left', hshown hstandard]
      exact and_iff_left_of_imp fun heq => heq ▸ hstandard.isAbsent

variable (h : IsPrototype fields names)
  (hentries : List.Forall₂ (fun field entry => field.1 = entry.1 ∧
    (field.2.Plain → shown entry.2 = field.2)) fields entries)
  (hvalues : List.Forall₂ (fun value slot => shown slot = value) arguments values)

include hentries in
theorem map_fst_entries : entries.map Prod.fst = fields.map Prod.fst := by
  induction hentries with
  | nil => rfl
  | cons hentry _ ih => rw [List.map_cons, List.map_cons, ih, hentry.1]

include h

theorem nodup_fresh (arguments : List Datum) :
    (((fields.filter fun field => !names.contains field.1) ++ names.zip arguments).map
      Prod.fst).Nodup := by
  rw [List.map_append, List.nodup_append]
  refine ⟨(List.filter_sublist.map Prod.fst).nodup h.nodup,
    (sublist_zip names arguments).nodup h.nodup_names, ?_⟩
  rintro key hkey _ hname rfl
  obtain ⟨field, hfield, rfl⟩ := List.mem_map.mp hkey
  have hnot := (List.mem_filter.mp hfield).2
  simp [(sublist_zip names arguments).subset hname] at hnot

include hentries hvalues

theorem shown_apply_iff (habsent : shown .absent = .absent)
    (hpresent : ∀ value ∈ arguments, value.isAbsent = false) (key : String) (value : Datum) :
    (∃ slot, (apply entries names values).lookup key = some slot ∧ shown slot = value) ∧
        value.isAbsent = false ↔
      (key, value) ∈ (fields.filter fun field => !names.contains field.1) ++ names.zip arguments := by
  rw [lookup_apply h.nodup_names h.not_matrix, List.mem_append, List.mem_filter]
  by_cases hkey : key ∈ names
  · rw [if_pos hkey, ← lookup_eq_some_iff_mem ((sublist_zip names arguments).nodup h.nodup_names),
      ← shown_argument_iff hvalues habsent hpresent]
    simp [hkey]
  · have hnot : (key, value) ∉ names.zip arguments := fun hmem => hkey (List.of_mem_zip hmem).1
    have hplain (standard : Datum) (hfield : fields.lookup key = some standard) : standard.Plain :=
      (h.storable _ (mem_of_lookup hfield)).resolve_right fun hname => hkey hname.1
    rw [if_neg hkey, shown_field_iff hentries hplain, lookup_eq_some_iff_mem h.nodup]
    simp [hkey, hnot]

theorem perm_shown (habsent : shown .absent = .absent)
    (hpresent : ∀ value ∈ arguments, value.isAbsent = false) :
    (((apply entries names values).map fun entry => (entry.1, shown entry.2)).filter fun field =>
        !field.2.isAbsent).Perm
      ((fields.filter fun field => !names.contains field.1) ++ names.zip arguments) := by
  have hkeys : (apply entries names values).map Prod.fst = fields.map Prod.fst := by
    rw [map_fst_apply h.not_matrix (map_fst_entries hentries ▸ h.subset), map_fst_entries hentries]
  have hnodup : ((apply entries names values).map Prod.fst).Nodup := hkeys ▸ h.nodup
  have hshown : (((apply entries names values).map fun entry => (entry.1, shown entry.2)).map
      Prod.fst).Nodup := by
    rw [List.map_map]
    exact hnodup
  refine (List.perm_ext_iff_of_nodup ((hshown.of_map _).filter _)
    ((nodup_fresh h arguments).of_map _)).mpr fun field => ?_
  rcases field with ⟨key, value⟩
  rw [← shown_apply_iff h hentries hvalues habsent hpresent, List.mem_filter, List.mem_map]
  simp only [lookup_eq_some_iff_mem hnodup, Bool.not_eq_true']
  refine and_congr_left fun _ => ⟨?_, ?_⟩
  · rintro ⟨⟨_, slot⟩, hslot, heq⟩
    cases heq
    exact ⟨slot, hslot, rfl⟩
  · rintro ⟨slot, hslot, rfl⟩
    exact ⟨(key, slot), hslot, rfl⟩

end Fresh

theorem IsPrototype.stores {fields : Attributes} {names : List String}
    (h : IsPrototype fields names) (s : Sketch) :
    s.Extends (s.storeFields fields).2 ∧
      List.Forall₂ (s.Match (s.storeFields fields).2) fields (s.storeFields fields).1 := by
  refine Sketch.storeFields_spec (fun field hfield s => ?_) s
  rcases h.storable field hfield with hplain | ⟨_, name, hname⟩
  · obtain ⟨hextends, hshows⟩ := Sketch.store_plain hplain s
    exact ⟨hextends, fun _ => hshows⟩
  · rw [hname, Sketch.store]
    exact ⟨.refl s, fun hplain => by cases hplain⟩

theorem creates_of_prototype {method : String} {fields : Attributes} {names : List String}
    (hmethod : prototype? method = some (fields, names)) (h : IsPrototype fields names)
    {arguments : List Datum} (hlength : arguments.length ≤ names.length) :
    Creates method arguments
      ((fields.filter fun field => !names.contains field.1) ++ names.zip arguments) := by
  intro s name given hgiven
  obtain ⟨hfields, hmatch⟩ := h.stores s
  obtain ⟨harguments, hpresents⟩ := Sketch.storeAll_spec hfields hgiven
  have hextends := hfields.trans harguments
  obtain ⟨slots, hcreate, hslots⟩ :=
    create?_eq s name hmethod given (by rwa [← hpresents.length_eq])
  refine ⟨_, .cell _, _, hcreate, by simp [Sketch.withObject, Sketch.bind],
    Sketch.shownObject_withObject _ _ _, ?_⟩
  have hentries := hmatch.imp fun field entry hentry => And.intro hentry.1 fun hplain =>
    Sketch.Presents.shown hextends (.inl ((hentry.2 hplain).mono (.refl s) harguments)) name slots
  have hvalues := hpresents.imp fun value slot hslot => hslot.shown hextends name slots
  have hpresent (value : Datum) (hvalue : value ∈ arguments) : value.isAbsent = false := by
    obtain ⟨_, _, hgives⟩ := exists_of_forall₂ hgiven hvalue
    exact hgives.isAbsent
  refine List.Perm.trans (.filter _ (.map _ ?_))
    (perm_shown h hentries hvalues (Sketch.view_absent _ _) hpresent)
  have hkeys := map_fst_apply h.not_matrix (map_fst_entries hentries ▸ h.subset)
    ((s.storeFields fields).2.storeAll given).1
  rw [map_fst_entries hentries] at hkeys
  rcases hslots with rfl | rfl
  · exact .refl _
  · exact perm_extend_nil (hkeys ▸ h.nodup) (hkeys ▸ h.typed)

end Compositor

end SceneCompiler
