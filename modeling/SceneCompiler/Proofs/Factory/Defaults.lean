import SceneCompiler.Proofs.Factory.Settling

/-!
# Defaults

A factory assigns a field exactly if its value is not that of a new object.  The values of new objects
and the comparisons in a factory stand in different places; here they are brought together, kind by
kind, for the parts that objects are made of.
-/

namespace SceneCompiler

variable {ρ : Type}

/-! ## Single assignments -/

def specialFields : List String :=
  ["comment", "target", "children", "shapes", "strokeDashArray"] ++ fixedFields

def typedFields : List String :=
  ["duration", "strokeLineJoin"] ++ CSharp.wholeFields ++ CSharp.capFields

@[simp] theorem mem_specialFields {key : String} :
    key ∈ specialFields ↔ key ∈ ["comment", "target", "children", "shapes", "strokeDashArray",
      "animators", "properties", "type", "shortDescription", "longDescription",
      "referenceParameters", "keyFrames"] :=
  Iff.rfl

@[simp] theorem mem_typedFields {key : String} :
    key ∈ typedFields ↔ key ∈ ["duration", "strokeLineJoin", "finalStep", "initialStep",
      "stepCount", "strokeDashCap", "strokeEndCap", "strokeStartCap"] :=
  Iff.rfl

structure Assigns (property key : String) : Prop where
  field : fieldOf property = key
  ordinary : key ∉ specialFields

def HasDefault (fresh : Attributes) (key : String) (standard : Datum) : Prop :=
  ∀ v, (key, v) ∈ fresh ↔ v = standard

def Lacks (fresh : Attributes) (key : String) : Prop :=
  ∀ v, (key, v) ∉ fresh

section Single

variable {s : Settings} {ref : ρ → Datum} {fresh : Attributes} {property key : String}

theorem list_ne_of_ordinary (hkey : key ∉ specialFields) (list : ItemList) : list.field ≠ key := by
  cases list <;> simp_all [ItemList.field, eq_comm]

theorem due_iff (hkey : key ∉ specialFields) {v : Datum} :
    Due s fresh (key, v) ↔ ∀ standard, (key, standard) ∈ fresh → ¬v.Same standard := by
  refine ⟨fun h => h.differs, fun h => ⟨?_, list_ne_of_ordinary hkey, h⟩⟩
  simp_all [Settings.admits, fixedFields]

theorem due_of_lacks (hkey : key ∉ specialFields) (hlacks : Lacks fresh key) (v : Datum) :
    Due s fresh (key, v) :=
  (due_iff hkey).mpr fun standard h => absurd h (hlacks standard)

theorem due_iff_of_default (hkey : key ∉ specialFields) {v standard : Datum}
    (hdefault : HasDefault fresh key standard) :
    Due s fresh (key, v) ↔ ¬v.Same standard := by
  rw [due_iff hkey]
  exact ⟨fun h => h _ ((hdefault _).mpr rfl), fun h w hw => (hdefault w).mp hw ▸ h⟩

theorem not_due_of_fixed (hkey : key ∈ fixedFields) (v : Datum) : ¬Due s fresh (key, v) := by
  intro h
  have hadmitted := h.admitted
  simp only [fixedFields, List.mem_cons, List.not_mem_nil, or_false] at hkey
  rcases hkey with rfl | rfl | rfl | rfl | rfl | rfl | rfl <;>
    simp [Settings.admits, fixedFields] at hadmitted

theorem settles_assignSome (hlacks : Lacks fresh key) (h : Assigns property key) {α : Type}
    {value : α → Operand ρ} {datum : α → Datum}
    (hstands : ∀ a, Stands s ref key (value a) (datum a)) (a : Option α) :
    Settles s ref fresh (Construction.assignSome property value a)
      (optionalField key datum a) := by
  obtain ⟨rfl, hkey⟩ := h
  cases a with
  | none => exact .done
  | some a => exact .assign (due_of_lacks hkey hlacks _) (hstands a) .done

theorem settles_assign (hlacks : Lacks fresh key) (h : Assigns property key) {a : Operand ρ}
    {v : Datum} (hstands : Stands s ref key a v) :
    Settles s ref fresh [Construction.assign property a] [(key, v)] := by
  obtain ⟨rfl, hkey⟩ := h
  exact .assign (due_of_lacks hkey hlacks _) hstands .done

theorem settles_assignIf {v standard : Datum} (hdefault : HasDefault fresh key standard)
    (h : Assigns property key) {differs : Bool}
    (hdiffers : differs = true ↔ ¬v.Same standard) {a : Operand ρ}
    (hstands : differs = true → Stands s ref key a v) :
    Settles s ref fresh (Construction.assignIf differs property a) [(key, v)] := by
  obtain ⟨rfl, hkey⟩ := h
  rw [← due_iff_of_default (s := s) hkey hdefault] at hdiffers
  cases differs with
  | false =>
    exact .pass (fun hdue => absurd (hdiffers.mpr hdue) Bool.false_ne_true)
      (list_ne_of_ordinary hkey) .done
  | true => exact .assign (hdiffers.mp rfl) (hstands rfl) .done

end Single

/-! ## Values by their kinds -/

section Kinds

variable {s : Settings} {ref : ρ → Datum} {fresh : Attributes} {property key : String}

theorem stands_number (hkey : key ∉ typedFields) (value : Number) :
    Stands s ref key (.number value) (.number value) := by
  refine ⟨.refl _, .inr fun d access => ?_⟩
  simp_all [CSharp.written?, CSharp.wholeFields, CSharp.operand]

theorem stands_integer (hkey : key ∈ CSharp.wholeFields) (value : Number) :
    Stands s ref key (.integer value) (.number value) := by
  refine ⟨.refl _, .inr fun d access => ?_⟩
  simp only [CSharp.wholeFields, List.mem_cons, List.not_mem_nil, or_false] at hkey
  rcases hkey with rfl | rfl | rfl <;> simp [CSharp.written?, CSharp.wholeFields, CSharp.operand]

theorem stands_text (hkey : key ∉ typedFields) (value : String) :
    Stands s ref key (.text value) (.text value) := by
  refine ⟨.refl _, .inr fun d access => ?_⟩
  simp_all [CSharp.written?, CSharp.capFields, CSharp.operand]

theorem stands_cap (hkey : key ∈ CSharp.capFields) (value : StrokeCap) :
    Stands s ref key (.cap value) (.ofNamed value) := by
  refine ⟨.refl _, .inr fun d access => ?_⟩
  simp only [CSharp.capFields, List.mem_cons, List.not_mem_nil, or_false] at hkey
  rcases hkey with rfl | rfl | rfl <;>
    simp [CSharp.written?, CSharp.capFields, CSharp.operand, Datum.ofNamed]

theorem stands_join (value : LineJoin) :
    Stands s ref "strokeLineJoin" (.join value) (.ofNamed value) :=
  ⟨.refl _, .inr fun _ _ => rfl⟩

theorem stands_vector2 (value : Vector2) : Stands s ref key (.vector2 value) (.ofVector2 value) :=
  ⟨.refl _, .inr fun _ _ => rfl⟩

theorem stands_vector3 (value : Vector3) : Stands s ref key (.vector3 value) (.ofVector3 value) :=
  ⟨.refl _, .inr fun _ _ => rfl⟩

theorem stands_object (r : ρ) : Stands s ref key (.object r) (ref r) :=
  ⟨.refl _, .inl ⟨r, rfl, rfl⟩⟩

theorem Datum.same_number_iff {a b : Number} (hb : b.equals b = true) :
    (Datum.number a).Same (.number b) ↔ a.equals b = true := by
  refine ⟨fun h => ?_, .number⟩
  cases h with
  | refl => exact hb
  | number h => exact h

theorem Datum.ofVector2_inj {u v : Vector2} (h : ofVector2 u = ofVector2 v) : u = v := by
  cases u
  cases v
  simpa [ofVector2] using h

theorem Datum.same_vector2_iff {u v : Vector2} (hv : v.equals v = true) :
    (Datum.ofVector2 u).Same (.ofVector2 v) ↔ u.equals v = true := by
  refine ⟨fun h => ?_, .vector2⟩
  generalize hu : Datum.ofVector2 u = a at h
  generalize hw : Datum.ofVector2 v = b at h
  cases h with
  | refl => rwa [ofVector2_inj (hu.trans hw.symm)]
  | number h => cases hu
  | vector2 h => rwa [ofVector2_inj hu, ofVector2_inj hw]

theorem Datum.same_text_iff {a b : String} : (Datum.text a).Same (.text b) ↔ a = b := by
  refine ⟨fun h => ?_, fun h => h ▸ .refl _⟩
  cases h with
  | refl => rfl

theorem Datum.same_flag_iff {a b : Bool} : (Datum.flag a).Same (.flag b) ↔ a = b := by
  refine ⟨fun h => ?_, fun h => h ▸ .refl _⟩
  cases h with
  | refl => rfl

theorem Number.equals_ofNat (k : Nat) : (ofNat k).equals (ofNat k) = true := by
  unfold ofNat ofRatio ofUnits
  split <;> simp [equals]

theorem settles_number {k : Nat} (hdefault : HasDefault fresh key (.number (Number.ofNat k)))
    (h : Assigns property key) (hkey : key ∉ typedFields) (value : Number) :
    Settles s ref fresh (Construction.assignNumber property (Number.ofNat k) value)
      [(key, .number value)] := by
  refine settles_assignIf hdefault h ?_ fun _ => stands_number hkey value
  simp [Datum.same_number_iff (Number.equals_ofNat k)]

theorem settles_integer {k : Nat} (hdefault : HasDefault fresh key (.number (Number.ofNat k)))
    (h : Assigns property key) (hkey : key ∈ CSharp.wholeFields) (value : Number) :
    Settles s ref fresh (Construction.assignInteger property (Number.ofNat k) value)
      [(key, .number value)] := by
  refine settles_assignIf hdefault h ?_ fun _ => stands_integer hkey value
  simp [Datum.same_number_iff (Number.equals_ofNat k)]

theorem settles_vector2 {j k : Nat}
    (hdefault : HasDefault fresh key (.ofVector2 ⟨Number.ofNat j, Number.ofNat k⟩))
    (h : Assigns property key) (value : Vector2) :
    Settles s ref fresh
      (Construction.assignVector2 property ⟨Number.ofNat j, Number.ofNat k⟩ value)
      [(key, .ofVector2 value)] := by
  refine settles_assignIf hdefault h ?_ fun _ => stands_vector2 value
  rw [Datum.same_vector2_iff (by simp [Vector2.equals, Number.equals_ofNat])]
  simp

theorem settles_flag (hdefault : HasDefault fresh key (.flag false)) (h : Assigns property key)
    (flag : Bool) :
    Settles s ref fresh (Construction.assignFlag property flag)
      [(key, .flag flag)] := by
  refine settles_assignIf hdefault h ?_ fun hflag => hflag ▸ ⟨.refl _, .inr fun _ _ => rfl⟩
  simp [Datum.same_flag_iff]

variable {n : Nat} {ref : Request n → Datum}

theorem settles_cap (hdefault : HasDefault fresh key (.ofNamed StrokeCap.flat))
    (h : Assigns property key) (hkey : key ∈ CSharp.capFields) (cap : StrokeCap) :
    Settles s ref fresh (Construction.strokeCap property cap)
      [(key, .ofNamed cap)] := by
  refine settles_assignIf hdefault h ?_ fun _ => stands_cap hkey cap
  rw [Datum.ofNamed, Datum.ofNamed, Datum.same_text_iff]
  cases cap <;> simp [Named.name]

theorem settles_join (hdefault : HasDefault fresh "strokeLineJoin" (.ofNamed LineJoin.miter))
    (join : LineJoin) :
    Settles s ref fresh
      (Construction.assignIf (join != .miter) "StrokeLineJoin" (.join join))
      [("strokeLineJoin", .ofNamed join)] := by
  refine settles_assignIf hdefault ⟨rfl, by simp⟩ ?_ fun _ => stands_join join
  rw [Datum.ofNamed, Datum.ofNamed, Datum.same_text_iff]
  cases join <;> simp [Named.name]

end Kinds

/-! ## Parts of objects -/

section Parts

variable {n : Nat} (p : Plan n) {s : Settings} (r : Fin n) {ref : Request n → Datum}
  {fresh : Attributes} {property key : String}

def AddsUnderRemarks {α : Type} (list : ItemList) (item : α → List (Statement ρ))
    (value : α → Operand ρ) : Prop :=
  ∀ a, ∃ remarks : List String, item a = remarks.map .comment ++ [.add list (value a)]

theorem assignments_fill {α : Type} {list : ItemList} {item : α → List (Statement ρ)}
    {value : α → Operand ρ} (hitem : AddsUnderRemarks list item value) (items : List α) :
    assignments (Construction.fill list item items) = [] := by
  unfold Construction.fill
  split
  · rfl
  · change (items.flatMap item).filterMap Statement.assignment? = []
    rw [List.filterMap_flatMap, List.flatMap_eq_nil_iff]
    intro a _
    obtain ⟨remarks, hremarks⟩ := hitem a
    simp [hremarks, Statement.assignment?]

theorem additions_fill {α : Type} {list : ItemList} {item : α → List (Statement ρ)}
    {value : α → Operand ρ} (hitem : AddsUnderRemarks list item value) (items : List α)
    (other : ItemList) :
    additions other (Construction.fill list item items) =
      if other = list then items.map value else [] := by
  have hadded (a : α) : (item a).filterMap (Statement.added? other) =
      if other = list then [value a] else [] := by
    obtain ⟨remarks, hremarks⟩ := hitem a
    by_cases hother : other = list
    · simp [hremarks, Statement.added?, hother]
    · simp [hremarks, Statement.added?, hother, Ne.symm hother]
  unfold Construction.fill
  cases items with
  | nil => simp [additions]
  | cons first rest =>
    change ((first :: rest).flatMap item).filterMap (Statement.added? other) = _
    rw [List.filterMap_flatMap]
    simp only [hadded]
    split
    · exact List.map_eq_flatMap.symm
    · simp

theorem settles_fill {α : Type} {list : ItemList} {item : α → List (Statement ρ)}
    {value : α → Operand ρ} {ref : ρ → Datum} (hitem : AddsUnderRemarks list item value)
    (items : List α) :
    Settles s ref fresh (Construction.fill list item items)
      [(list.field, .list (items.map fun a => (value a).datum s ref))] := by
  have h := Settles.fill (s := s) list (assignments_fill hitem items) (additions_fill hitem items)
    (Settles.done : Settles s ref fresh [] [])
  rw [List.append_nil, List.map_map] at h
  exact h

theorem settles_fixed {ref : ρ → Datum} {fields : Attributes} {ss : List (Statement ρ)}
    (key : String) (hkey : key ∈ fixedFields) (v : Datum) (h : Settles s ref fresh ss fields) :
    Settles s ref fresh ss ((key, v) :: fields) := by
  refine .pass (not_due_of_fixed hkey v) (fun list => ?_) h
  rintro rfl
  cases list <;> simp [ItemList.field, fixedFields] at hkey

theorem settles_visual (hlacks : ∀ key ∈ ["centerPoint", "clip", "offset",
      "rotationAngleInDegrees", "scale", "size"], Lacks fresh key) (v : Visual (Fin n)) :
    Settles s ref fresh (Construction.visual p r v)
      (v.fields fun i => ref (p.request r i)) := by
  simp only [List.forall_mem_cons] at hlacks
  obtain ⟨hcenter, hclip, hoffset, hrotation, hscale, hsize, _⟩ := hlacks
  unfold Construction.visual Visual.fields
  exact ((((((settles_assignSome hcenter ⟨rfl, by simp⟩ stands_vector3 _).append
    (settles_assignSome hclip ⟨rfl, by simp⟩ (fun i => stands_object (p.request r i)) _)).append
    (settles_assignSome hoffset ⟨rfl, by simp⟩ stands_vector3 _)).append
    (settles_assignSome hrotation ⟨rfl, by simp⟩ (stands_number (by simp)) _)).append
    (settles_assignSome hscale ⟨rfl, by simp⟩ stands_vector3 _)).append
    (settles_assignSome hsize ⟨rfl, by simp⟩ stands_vector2 _)).append
    (settles_fill (fun _ => ⟨[], rfl⟩) _)

theorem settles_placement (hlacks : ∀ key ∈ ["centerPoint", "offset", "rotationAngleInDegrees",
      "scale"], Lacks fresh key) (q : Placement) :
    Settles s ref fresh (Construction.placement q) q.fields := by
  simp only [List.forall_mem_cons] at hlacks
  obtain ⟨hcenter, hoffset, hrotation, hscale, _⟩ := hlacks
  unfold Construction.placement Placement.fields
  exact (((settles_assignSome hcenter ⟨rfl, by simp⟩ stands_vector2 _).append
    (settles_assignSome hoffset ⟨rfl, by simp⟩ stands_vector2 _)).append
    (settles_assignSome hrotation ⟨rfl, by simp⟩ (stands_number (by simp)) _)).append
    (settles_assignSome hscale ⟨rfl, by simp⟩ stands_vector2 _)

def HasDefaults (fresh part : Attributes) : Prop :=
  ∀ field ∈ part, HasDefault fresh field.1 field.2

theorem settles_insetClip (hdefaults : HasDefaults fresh ({} : InsetClip).fields) (c : InsetClip) :
    Settles s ref fresh (Construction.insetClip c) c.fields := by
  simp only [HasDefaults, InsetClip.fields, List.forall_mem_cons] at hdefaults
  obtain ⟨hcenter, hscale, hleft, hright, htop, hbottom, _⟩ := hdefaults
  unfold Construction.insetClip
  exact (((((settles_vector2 hcenter ⟨rfl, by simp⟩ _).append
    (settles_vector2 hscale ⟨rfl, by simp⟩ _)).append
    (settles_number hleft ⟨rfl, by simp⟩ (by simp) _)).append
    (settles_number hright ⟨rfl, by simp⟩ (by simp) _)).append
    (settles_number htop ⟨rfl, by simp⟩ (by simp) _)).append
    (settles_number hbottom ⟨rfl, by simp⟩ (by simp) _)

theorem settles_trim (hdefaults : HasDefaults fresh ({} : Trim).fields) (t : Trim) :
    Settles s ref fresh (Construction.trim t) t.fields := by
  simp only [HasDefaults, Trim.fields, List.forall_mem_cons] at hdefaults
  obtain ⟨hstart, hstop, hoffset, _⟩ := hdefaults
  unfold Construction.trim
  refine .reorder (List.perm_append_singleton _ [_, _]) ?_
  exact ((settles_number hstop ⟨rfl, by simp⟩ (by simp) _).append
    (settles_number hoffset ⟨rfl, by simp⟩ (by simp) _)).append
    (settles_number hstart ⟨rfl, by simp⟩ (by simp) _)

theorem settles_stepEasing (hdefaults : HasDefaults fresh ({} : StepEasing).fields)
    (e : StepEasing) :
    Settles s ref fresh (Construction.stepEasing e) e.fields := by
  simp only [HasDefaults, StepEasing.fields, List.forall_mem_cons] at hdefaults
  obtain ⟨hfinal, hinitial, hfinalFrame, hinitialFrame, hcount, _⟩ := hdefaults
  unfold Construction.stepEasing
  exact ((((settles_integer hfinal ⟨rfl, by simp⟩ (by simp [CSharp.wholeFields]) _).append
    (settles_integer hinitial ⟨rfl, by simp⟩ (by simp [CSharp.wholeFields]) _)).append
    (settles_flag hfinalFrame ⟨rfl, by simp⟩ _)).append
    (settles_flag hinitialFrame ⟨rfl, by simp⟩ _)).append
    (settles_integer hcount ⟨rfl, by simp⟩ (by simp [CSharp.wholeFields]) _)

theorem perm_cons_middle (before passed after : Attributes) (field : String × Datum) :
    (before ++ (field :: (passed ++ after))).Perm (before ++ passed ++ field :: after) := by
  rw [List.append_assoc]
  exact List.perm_middle.symm.append_left before

theorem settles_sprite (hlacks : ∀ key ∈ ["fillBrush", "geometry", "strokeBrush"], Lacks fresh key)
    (hdefaults : HasDefaults fresh (({} : Sprite (Fin n)).fields fun i => ref (p.request r i)))
    (q : Sprite (Fin n)) :
    Settles s ref fresh (Construction.sprite p r q)
      (q.fields fun i => ref (p.request r i)) := by
  simp only [List.forall_mem_cons] at hlacks
  obtain ⟨hfill, hgeometry, hstroke, _⟩ := hlacks
  simp only [HasDefaults, Sprite.fields, optionalField, Option.toList_none, List.map_nil,
    List.nil_append, List.forall_mem_cons] at hdefaults
  obtain ⟨hscaling, hdashCap, hdashOffset, _, hendCap, hjoin, hstartCap, hmiter, hthickness, _⟩ :=
    hdefaults
  unfold Construction.sprite Sprite.fields
  -- The flag is assigned before the stroke brush.
  refine .reorder (perm_cons_middle _ _ _ _) ?_
  simp only [List.append_assoc]
  refine (settles_assignSome hfill ⟨rfl, by simp⟩ (fun i => stands_object (p.request r i)) _).append ?_
  refine (settles_assignSome hgeometry ⟨rfl, by simp⟩
    (fun i => stands_object (p.request r i)) _).append ?_
  refine (settles_flag hscaling ⟨rfl, by simp⟩ _).append ?_
  refine (settles_assignSome hstroke ⟨rfl, by simp⟩
    (fun i => stands_object (p.request r i)) _).append ?_
  refine (settles_cap hdashCap ⟨rfl, by simp⟩ (by simp [CSharp.capFields]) _).append ?_
  refine (settles_number hdashOffset ⟨rfl, by simp⟩ (by simp) _).append ?_
  refine (settles_fill (fun _ => ⟨[], rfl⟩) _).append ?_
  refine (settles_cap hendCap ⟨rfl, by simp⟩ (by simp [CSharp.capFields]) _).append ?_
  refine (settles_join hjoin _).append ?_
  refine (settles_cap hstartCap ⟨rfl, by simp⟩ (by simp [CSharp.capFields]) _).append ?_
  exact (settles_number hmiter ⟨rfl, by simp⟩ (by simp) _).append
    (settles_number hthickness ⟨rfl, by simp⟩ (by simp) _)

theorem settles_present (hlacks : Lacks fresh key) (hproperty : fieldOf property = key)
    (hkey : key ∉ typedFields) (hlist : ∀ list : ItemList, list.field ≠ key)
    (hadmits : ∀ text, s.admits (key, .text text) = !Text.isBlank text) (text : Option String) :
    Settles s ref fresh (Construction.assignSome property .text (Text.present? text))
      (optionalField key .text text) := by
  subst hproperty
  cases text with
  | none => exact .done
  | some text =>
    rw [Text.present?]
    cases hblank : Text.isBlank text with
    | true =>
      refine .pass (fun hdue => ?_) hlist .done
      have hadmitted := hdue.admitted
      rw [hadmits, hblank] at hadmitted
      cases hadmitted
    | false =>
      refine .assign ⟨?_, hlist, fun standard h => absurd h (hlacks standard)⟩
        (stands_text hkey text) .done
      rw [hadmits, hblank]
      rfl

theorem settles_parameters (hlacks : Lacks fresh "target") (q : Parameters (Fin n)) :
    Settles s ref fresh (Construction.parameters p r q)
      (q.fields fun i => ref (p.request r i)) := by
  refine (settles_present hlacks rfl (by simp) (fun list => by cases list <;> simp [ItemList.field])
    (fun text => by simp [Settings.admits, Datum.isBlank]) _).append ?_
  refine settles_fixed "referenceParameters" (by simp [fixedFields]) _ (.of_isQuiet ?_)
  exact List.forall_mem_map.mpr fun _ _ => rfl

theorem stands_duration (milliseconds : Number) :
    Stands s ref "duration" (Construction.duration s milliseconds) (.number milliseconds) := by
  unfold Construction.duration
  split
  · rename_i hequals
    refine ⟨.number hequals, .inr fun d access => ?_⟩
    simp [CSharp.written?, CSharp.operand, hequals]
  · rename_i hequals
    refine ⟨.refl _, .inr fun d access => ?_⟩
    simp [CSharp.written?, CSharp.operand, hequals]

theorem isQuiet_keyFrame {α : Type} (value : α → Operand (Request n)) (describe : α → List String)
    (k : KeyFrame (Fin n) α) :
    ∀ statement ∈ Construction.keyFrame p r value describe k, statement.isQuiet = true := by
  unfold Construction.keyFrame
  split
  · exact List.forall_mem_append.mpr
      ⟨List.forall_mem_map.mpr fun _ _ => rfl, List.forall_mem_singleton.mpr rfl⟩
  · exact List.forall_mem_singleton.mpr rfl

theorem settles_frames (htarget : Lacks fresh "target") (hduration : Lacks fresh "duration")
    {α : Type} (q : Parameters (Fin n)) (f : Frames (Fin n) α) (value : α → Operand (Request n))
    (describe : α → List String) (datum : α → Datum) :
    Settles s ref fresh (Construction.frames p s r q f value describe)
      (q.fields (fun i => ref (p.request r i)) ++
        f.fields (fun i => ref (p.request r i)) datum) := by
  refine (settles_parameters p r htarget q).append ?_
  refine settles_fixed "keyFrames" (by simp [fixedFields]) _ ?_
  refine (settles_assign hduration ⟨rfl, by simp⟩ (stands_duration f.duration)).append (.of_isQuiet ?_)
  intro statement h
  obtain ⟨k, _, hk⟩ := List.mem_flatMap.mp h
  exact isQuiet_keyFrame p r value describe k statement hk

theorem settles_optionalFixed {ref : ρ → Datum} (key : String) (hkey : key ∈ fixedFields) {α : Type}
    (datum : α → Datum) (a : Option α) :
    Settles s ref fresh [] (optionalField key datum a) := by
  cases a with
  | none => exact .done
  | some a => exact settles_fixed key hkey _ .done

theorem settles_comment (hlacks : Lacks fresh "comment") (base : Base (Fin n)) :
    Settles s ref fresh (Construction.assignSome "Comment" .text (Construction.comment? s base))
      (optionalField "comment" .text base.description.comment) := by
  have hlist (list : ItemList) : list.field ≠ "comment" := by cases list <;> simp [ItemList.field]
  unfold Construction.comment?
  cases hset : s.setComments with
  | true =>
    exact settles_present hlacks rfl (by simp) hlist
      (fun text => by simp [Settings.admits, Datum.isBlank, hset]) _
  | false =>
    cases base.description.comment with
    | none => exact .done
    | some text =>
      refine .pass (fun hdue => ?_) hlist .done
      simpa [Settings.admits, hset] using hdue.admitted

theorem isQuiet_insertValues (values : PropertyValues) :
    ∀ statement ∈ Construction.insertValues (σ := ρ) values, statement.isQuiet = true := by
  unfold Construction.insertValues
  split
  · exact fun _ h => absurd h List.not_mem_nil
  · refine List.forall_mem_cons.mpr ⟨rfl, List.forall_mem_append.mpr ⟨?_, ?_⟩⟩ <;>
      exact List.forall_mem_map.mpr fun _ _ => rfl

theorem settles_setUp (hlacks : Lacks fresh "comment") (base : Base (Fin n)) :
    Settles s ref fresh (Construction.setUp s base) base.description.fields := by
  have hvalues : Settles s ref fresh (Construction.insertValues base.values) [] :=
    .of_isQuiet (isQuiet_insertValues base.values)
  have hdescriptions := ((settles_optionalFixed "shortDescription" (by simp [fixedFields])
    Datum.text base.description.short).append (settles_optionalFixed "longDescription"
    (by simp [fixedFields]) Datum.text base.description.long)).append hvalues
  simp only [List.append_nil, List.nil_append] at hdescriptions
  unfold Description.fields
  rw [List.append_assoc]
  exact (settles_comment hlacks base).append hdescriptions

theorem settles_composition (hlacks : Lacks fresh "comment") {base : Base (Fin n)}
    {variant : Variant (Fin n)} {ss own rest : List (Statement (Request n))}
    (hss : ss = Construction.setUp s base ++ own ++ rest)
    (hown : Settles s ref fresh own (variant.fields fun i => ref (p.request r i)))
    (hrest : ∀ statement ∈ rest, statement.isQuiet = true) :
    Settles s ref fresh ss
      ((Object.composition base variant).fields fun i => ref (p.request r i)) := by
  rw [hss]
  refine settles_fixed "animators" (by simp [fixedFields]) _ ?_
  refine settles_fixed "properties" (by simp [fixedFields]) _ ?_
  refine .reorder (List.perm_append_comm.append_right _) ?_
  exact ((settles_setUp hlacks base).append hown).append
    (settles_fixed "type" (by simp [fixedFields]) _ (.of_isQuiet hrest))

end Parts

end SceneCompiler
