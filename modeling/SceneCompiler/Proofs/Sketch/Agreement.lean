import SceneCompiler.Proofs.Factory.Requests
import SceneCompiler.Sketch.Drawing

/-!
# Objects whose fields are of their types

What tells an object of a sketch apart, and its name, are made from its slots.  If these are of
the types of the fields, they are those of the object that is read.
-/

namespace SceneCompiler.Sketch

/-! ## Values -/

variable {s : Sketch} {slot : Slot} {f : Slots} {name : String} {names : List String}

theorem exists_number (h : slot.isNumber = true) : ∃ n, slot = .number n := by
  cases slot with
  | number n => exact ⟨n, rfl⟩
  | _ => cases h

theorem exists_text (h : slot.isText = true) : ∃ t, slot = .text t := by
  cases slot with
  | text t => exact ⟨t, rfl⟩
  | _ => cases h

theorem toNumber_eq (h : slot.isNumber = true) : s.toNumber slot = strictNumber slot := by
  obtain ⟨n, rfl⟩ := exists_number h
  rw [strictNumber, toNumber]

theorem valueAtoms_number (h : slot.isNumber = true) :
    s.valueAtoms slot = [.ofNumber (s.toNumber slot)] := by
  obtain ⟨n, rfl⟩ := exists_number h
  rw [valueAtoms, toNumber]

theorem valueAtoms_text (h : slot.isText = true) : s.valueAtoms slot = [.text slot.toText] := by
  obtain ⟨t, rfl⟩ := exists_text h
  rfl

theorem valueAtoms_flag (h : slot.isFlag = true) : s.valueAtoms slot = [.flag slot.toFlag] := by
  cases slot with
  | flag b => rfl
  | _ => cases h

theorem valueAtoms_orEmpty (h : (slot == .absent || slot.isText) = true) :
    s.valueAtoms slot.orEmpty = [.text (slot.toText?.getD "")] := by
  cases slot with
  | absent => rfl
  | text t => rfl
  | _ => cases h

theorem eq_text_of_isMember {α : Type} [Named α] (other : α) (h : slot.isMember α = true) :
    slot = .text (Named.name (toNamed other slot)) := by
  obtain ⟨a, ha⟩ := Option.isSome_iff_exists.mp h
  obtain ⟨t, ht, hfind⟩ := Option.bind_eq_some_iff.mp ha
  have hname : Named.name a = t := by simpa using List.find?_some hfind
  cases slot with
  | text u =>
    cases ht
    rw [toNamed, ha, Option.getD_some, hname]
  | _ => cases ht

theorem valueAtoms_member {α : Type} [Named α] (other : α) (h : slot.isMember α = true) :
    s.valueAtoms slot = Atom.ofNamed (toNamed other slot) := by
  rw [eq_text_of_isMember other h, valueAtoms, ← eq_text_of_isMember other h, Atom.ofNamed]

theorem fieldAtoms_member {α : Type} [Named α] (other : α) (h : (f.get name).isMember α = true) :
    s.fieldAtoms f [name] = Atom.ofNamed (toNamed other (f.get name)) := by
  rw [fieldAtoms, List.flatMap_singleton, valueAtoms_member other h]

theorem numbers_of_isRecord (h : s.isRecord names slot = true) {name : String}
    (hname : name ∈ names) : ((s.fields slot).get name).isNumber = true := by
  rw [isRecord, Bool.and_eq_true] at h
  exact List.all_eq_true.mp h.2 name hname

theorem recordAtoms_numbers (h : s.isRecord names slot = true) :
    s.recordAtoms names slot =
      names.map fun name => .ofNumber (s.toNumber ((s.fields slot).get name)) := by
  have hnames : (s.fields slot).present.map (·.1) = names :=
    beq_iff_eq.mp ((Bool.and_eq_true _ _).mp h).1
  unfold recordAtoms
  rw [if_pos hnames, List.flatMap_def, List.map_congr_left fun name hname =>
    valueAtoms_number (numbers_of_isRecord h hname), ← List.flatMap_def, ← List.map_eq_flatMap]

theorem vector2Atoms_eq (h : s.isRecord ["x", "y"] slot = true) :
    s.vector2Atoms slot = Atom.ofVector2 (s.toVector2 slot) :=
  recordAtoms_numbers h

theorem matrixAtoms_eq (h : s.isRecord matrixNames slot = true) :
    s.recordAtoms matrixNames slot = Atom.ofMatrix (s.toMatrix slot) :=
  recordAtoms_numbers h

theorem strictVector2_eq (h : s.isRecord ["x", "y"] slot = true) :
    s.strictVector2 slot = s.toVector2 slot := by
  have hx := numbers_of_isRecord h (by simp : "x" ∈ _)
  have hy := numbers_of_isRecord h (by simp : "y" ∈ _)
  rw [strictVector2, toVector2, toNumber_eq hx, toNumber_eq hy]

theorem channels_eq (h : s.isRecord colorNames slot = true) :
    s.channels slot = [(s.toColor slot).a.hexText, (s.toColor slot).r.hexText,
      (s.toColor slot).g.hexText, (s.toColor slot).b.hexText] := by
  have hname (name : String) (hname : name ∈ colorNames) :
      s.hexText ((s.fields slot).get name) =
        (s.toNumber ((s.fields slot).get name)).hexText := by
    obtain ⟨n, hn⟩ := exists_number (numbers_of_isRecord h hname)
    rw [hn, hexText, toNumber]
  simp only [colorNames, List.forall_mem_cons] at hname
  simp only [channels, List.map_cons, List.map_nil, toColor, hname]

theorem colorHex_eq (h : s.isRecord colorNames slot = true) :
    s.colorHex slot = (s.toColor slot).hex := by
  simp [colorHex, channels_eq h, Color.hex, String.join]

/-! ## What tells objects apart -/

theorem fieldAtoms_numbers (h : areNumbers f names = true) :
    s.fieldAtoms f names = names.map fun name => .ofNumber (s.toNumber (f.get name)) := by
  rw [areNumbers, List.all_eq_true] at h
  rw [fieldAtoms, List.flatMap_def, List.map_congr_left fun name hname =>
    valueAtoms_number (h name hname), ← List.flatMap_def, ← List.map_eq_flatMap]

theorem parameterAtoms_eq (h : s.typedParameters f = true) :
    s.parameterAtoms f = Atom.ofParameters (s.toParameters f) := by
  simp only [typedParameters, Bool.and_eq_true, isTable, beq_iff_eq] at h
  have hvalues : s.values (f.get "referenceParameters") =
      s.entries (f.get "referenceParameters") := by
    rw [values, h.2]
  simp only [parameterAtoms, valueAtoms_orEmpty h.1, Atom.ofParameters, toParameters, hvalues,
    List.singleton_append]

theorem frameAtoms_eq {α : Type} {typed : Slot → Bool} {value : Slot → Option α}
    {atoms : Slot → List Atom} {typedAtoms : α → List Atom} (h : s.typedFrames typed f = true)
    (hvalue : ∀ slot, typed slot = true → ∃ v, value slot = some v ∧ atoms slot = typedAtoms v) :
    s.frameAtoms atoms f = Atom.ofFrames typedAtoms (s.toFrames value f) := by
  simp only [typedFrames, typedFrame, Bool.and_eq_true, List.all_eq_true] at h
  obtain ⟨hduration, hframes⟩ := h
  simp only [frameAtoms, Atom.ofFrames, toFrames, toFrame, valueAtoms_number hduration,
    toNumber_eq hduration, List.singleton_append, List.length_map, List.flatMap_map]
  congr 2
  rw [List.flatMap_def, List.flatMap_def]
  refine congrArg List.flatten (List.map_congr_left fun slot hslot => ?_)
  obtain ⟨hprogress, hheld⟩ := hframes slot hslot
  rw [valueAtoms_number hprogress, List.singleton_append]
  congr 1
  cases hkind : hasValue (s.fields slot) with
  | true =>
    obtain ⟨v, hv, hatoms⟩ := hvalue _ (by simpa [hkind] using hheld)
    simp [hv, hatoms]
  | false =>
    simp only [hkind, Bool.false_eq_true, if_false, Bool.and_eq_true] at hheld
    simp [valueAtoms_text hheld.2]

theorem eq_text_of_toText {text : String} (h : slot.toText = text) (hne : text ≠ "") :
    slot = .text text := by
  cases slot with
  | text t => exact congrArg _ h
  | _ => exact absurd h.symm hne

@[simp] theorem vector2Atoms_text (t : String) : s.vector2Atoms (.text t) = [.text t] := by
  simp [vector2Atoms, recordAtoms, fields, cell?, Slots.present]

theorem vector2Atoms_member {α : Type} [Named α] (other : α) (h : slot.isMember α = true) :
    s.vector2Atoms slot = Atom.ofNamed (toNamed other slot) := by
  rw [eq_text_of_isMember other h, vector2Atoms_text, ← eq_text_of_isMember other h, Atom.ofNamed]

theorem commandAtoms_eq (h : s.typedCommand slot = true) :
    ∃ command, s.toCommand? slot = some command ∧
      s.commandAtoms slot = Atom.ofCommand command := by
  simp only [typedCommand, Bool.and_eq_true] at h
  obtain ⟨hnames, htail⟩ := h
  have hatoms : s.commandAtoms slot =
      (commandNames ((s.fields slot).get "kind").toText).flatMap fun name =>
        s.vector2Atoms ((s.fields slot).get name) := by
    unfold commandAtoms
    rw [if_pos (by rw [Bool.and_eq_true]; exact hnames)]
  rw [hatoms]
  unfold toCommand?
  generalize hkind : ((s.fields slot).get "kind").toText = kind at *
  unfold commandNames at *
  split at * <;>
    simp_all [eq_text_of_toText hkind, Atom.ofCommand, vector2Atoms_eq,
      vector2Atoms_member FigureLoop.opened]

theorem trimAtoms_eq (h : areNumbers f trimNames = true) :
    s.fieldAtoms f trimNames = Atom.ofTrim (toTrim f) := by
  have hnumbers := List.all_eq_true.mp h
  simp only [trimNames, List.forall_mem_cons] at hnumbers
  rw [fieldAtoms_numbers h]
  simp [trimNames, Atom.ofTrim, toTrim, toNumber_eq, hnumbers]

theorem commandsAtoms_eq {commands : Slot} (hlist : s.isList commands = true)
    (h : (s.items commands).all s.typedCommand = true) :
    s.commandsAtoms commands =
      .size ((s.items commands).filterMap s.toCommand?).length ::
        ((s.items commands).filterMap s.toCommand?).flatMap Atom.ofCommand := by
  rw [isList, beq_iff_eq] at hlist
  rw [commandsAtoms, hlist]
  generalize s.items commands = items at h ⊢
  induction items with
  | nil => rfl
  | cons slot items ih =>
    rw [List.all_cons, Bool.and_eq_true] at h
    obtain ⟨command, hcommand, hatoms⟩ := commandAtoms_eq h.1
    simpa [hcommand, hatoms] using ih h.2

theorem variantAtoms?_eq {type : String} {variant : Variant Slot}
    (hread : s.toVariant? f type = some variant) (htyped : s.typedVariant f type = true) :
    s.variantAtoms? f type = variant.atoms? := by
  have hcolors (h : s.typedFrames (s.isRecord colorNames) f = true) :
      s.frameAtoms (fun v => [.text (s.colorHex v)]) f =
        Atom.ofFrames Atom.ofColor (s.toFrames (fun v => some (s.toColor v)) f) :=
    frameAtoms_eq h fun slot hslot => ⟨_, rfl, by rw [colorHex_eq hslot, Atom.ofColor]⟩
  have hscalars (h : s.typedFrames Slot.isNumber f = true) :
      s.frameAtoms s.valueAtoms f =
        Atom.ofFrames (fun x => [.ofNumber x]) (s.toFrames (fun v => some (s.toNumber v)) f) :=
    frameAtoms_eq h fun slot hslot => ⟨_, rfl, valueAtoms_number hslot⟩
  have hvector2s (h : s.typedFrames (s.isRecord ["x", "y"]) f = true) :
      s.frameAtoms s.vector2Atoms f =
        Atom.ofFrames Atom.ofVector2 (s.toFrames (fun v => some (s.toVector2 v)) f) :=
    frameAtoms_eq h fun slot hslot => ⟨_, rfl, vector2Atoms_eq hslot⟩
  have hvector3s (h : s.typedFrames (s.isRecord ["x", "y", "z"]) f = true) :
      s.frameAtoms (s.recordAtoms ["x", "y", "z"]) f =
        Atom.ofFrames Atom.ofVector3 (s.toFrames (fun v => some (s.toVector3 v)) f) :=
    frameAtoms_eq h fun slot hslot => ⟨_, rfl, recordAtoms_numbers hslot⟩
  have hpaths (h : s.typedFrames Slot.toFlag f = true) :
      s.frameAtoms (fun _ => []) f = Atom.ofFrames (fun _ => []) (s.toFrames toPath? f) :=
    frameAtoms_eq h fun slot hslot => ⟨slot, if_pos hslot, rfl⟩
  unfold toVariant? at hread
  unfold typedVariant at htyped
  unfold variantAtoms?
  split at hread <;> cases hread <;>
    simp only [Bool.and_eq_true, arePoints, List.all_cons, List.all_nil] at htyped
  case h_14.refl =>
    simp only [areNumbers, List.all_cons, List.all_nil, Bool.and_eq_true] at htyped
    simp [fieldAtoms, Variant.atoms?, toSteps, valueAtoms_number, toNumber_eq, valueAtoms_flag,
      htyped]
  all_goals
    simp [Variant.atoms?, vectorAtoms, vector2Atoms_eq, strictVector2_eq,
      trimAtoms_eq, Atom.ofColor, colorHex_eq, parameterAtoms_eq, valueAtoms_text,
      toVariant?.vector, hcolors, hscalars, hvector2s, hvector3s, hpaths, htyped]

theorem geometryAtoms?_eq {type : String} {geometry : CanvasGeometry Slot}
    (hread : s.toGeometry? f type = some geometry) (htyped : s.typedGeometry f type = true) :
    (s.geometryAtoms? f type).map (.text type :: ·) = some geometry.atoms := by
  unfold toGeometry? at hread
  split at hread <;> cases hread <;> simp only [typedGeometry, Bool.and_eq_true] at htyped
  all_goals
    simp [geometryAtoms?, CanvasGeometry.atoms, matrixAtoms_eq, fieldAtoms_numbers,
      fieldAtoms_member CombineMode.union, fieldAtoms_member FilledRegion.winding, commandsAtoms_eq,
      toGeometry?.n, htyped]

/-! ## Objects -/

theorem typeName_of_toVariant? {type : String} {variant : Variant Slot}
    (h : s.toVariant? f type = some variant) :
    type = variant.typeName ∧ (type == "CompositionPath") = false ∧
      (type == "CanvasGeometry") = false := by
  unfold toVariant? at h
  split at h <;> cases h <;> exact ⟨rfl, by decide, by decide⟩

/-- What an object is read from, by the type that its slots name. -/
inductive Reads (s : Sketch) (f : Slots) : Object Slot → Prop
  | composition {variant : Variant Slot} : (f.get "type").toText = variant.typeName →
    s.toVariant? f variant.typeName = some variant →
    Reads s f (.composition (s.toBase f) variant)
  | path : (f.get "type").toText = "CompositionPath" →
    Reads s f (.path (toDescription f) (f.get "source"))
  | canvas {geometry : CanvasGeometry Slot} : (f.get "type").toText = "CanvasGeometry" →
    s.toGeometry? f (f.get "geometryType").toText = some geometry →
    Reads s f (.canvas (toDescription f) geometry)

theorem reads_of_draft {o : Object Slot} (hread : s.draft slot = .known o) :
    s.Reads (s.fields slot) o := by
  unfold draft at hread
  dsimp only at hread
  split at hread
  next hpath =>
    cases hread
    exact .path (beq_iff_eq.mp hpath)
  next =>
    split at hread
    next hcanvas =>
      split at hread
      next hgeometry =>
        cases hread
        exact .canvas (beq_iff_eq.mp hcanvas) hgeometry
      next => cases hread
    next =>
      split at hread
      next hvariant =>
        cases hread
        have htype := (typeName_of_toVariant? hvariant).1
        exact .composition htype (htype ▸ hvariant)
      next => cases hread

theorem typed_composition {variant : Variant Slot}
    (htype : ((s.fields slot).get "type").toText = variant.typeName)
    (hvariant : s.toVariant? (s.fields slot) variant.typeName = some variant)
    (htyped : s.isTyped slot = true) :
    s.typedBase (s.fields slot) = true ∧
      s.typedVariant (s.fields slot) variant.typeName = true := by
  obtain ⟨_, hpath, hcanvas⟩ := typeName_of_toVariant? hvariant
  simpa [isTyped, htype, hpath, hcanvas] using htyped

theorem typed_canvas (htype : ((s.fields slot).get "type").toText = "CanvasGeometry")
    (htyped : s.isTyped slot = true) :
    s.typedGeometry (s.fields slot) ((s.fields slot).get "geometryType").toText = true := by
  simpa [isTyped, htype] using htyped

theorem atoms?_eq {o : Object Slot} (hread : s.draft slot = .known o)
    (htyped : s.isTyped slot = true) (keepComments : Bool) :
    s.atoms? keepComments slot = o.atoms? keepComments := by
  unfold atoms?
  cases reads_of_draft hread with
  | path htype => simp [htype, Object.atoms?]
  | canvas htype hgeometry =>
    obtain ⟨fields, hfields, hatoms⟩ :=
      Option.map_eq_some_iff.mp (geometryAtoms?_eq hgeometry (typed_canvas htype htyped))
    simp [htype, Object.atoms?, hfields, hatoms]
  | composition htype hvariant =>
    obtain ⟨hbase, htyped⟩ := typed_composition htype hvariant htyped
    obtain ⟨_, hpath, hcanvas⟩ := typeName_of_toVariant? hvariant
    simp only [typedBase, Bool.and_eq_true] at hbase
    simp only [htype, hpath, hcanvas, Bool.false_eq_true, if_false,
      variantAtoms?_eq hvariant htyped, valueAtoms_orEmpty hbase.1.1.1, Object.atoms?, isAnimated,
      hasProperties]
    rfl

/-! ## Names -/

/-- The object that a slot holds, with a blank one for what is no object of the model. -/
def held (s : Sketch) (slot : Slot) : Object Slot :=
  match s.draft slot with
  | .known o => o
  | .unknown _ _ _ => .composition {} .linearEasing

theorem colorFrames?_held (slot : Slot) :
    Naming.colorFrames? (s.held slot) = (s.colorAnimation? slot).map fun f =>
      (s.toFrames (fun v => some (s.toColor v)) f).keyFrames := by
  unfold colorAnimation? held
  dsimp only
  cases htype : (s.fields slot).get "type" == .text "ColorKeyFrameAnimation" with
  | true =>
    unfold draft toVariant?
    simp [beq_iff_eq.mp htype, Slot.toText, Slot.toText?, Naming.colorFrames?]
  | false =>
    split
    next o hread =>
      cases reads_of_draft hread with
      | @composition variant hname hvariant =>
        cases variant with
        | colorAnimation p k =>
          rw [Variant.typeName] at hname
          simp [eq_text_of_toText hname (by decide)] at htype
        | _ => rfl
      | _ => rfl
    next => rfl

theorem findSome?_colorFrames_held (as : List (Animator Slot)) :
    (as.findSome? fun a => Naming.colorFrames? (s.held a.animation)) =
      (as.findSome? fun a => s.colorAnimation? a.animation).map fun f =>
        (s.toFrames (fun v => some (s.toColor v)) f).keyFrames := by
  simp only [colorFrames?_held]
  exact List.map_findSome?.symm

theorem range?_toFrames {α : Type} (g : Slot → α) :
    Naming.range? (s.toFrames (fun v => some (g v)) f).keyFrames =
      (s.frameRange? f).map fun ends => (g ends.1, g ends.2) := by
  simp only [Naming.range?, frameRange?, toFrames, List.head?_map, List.getLast?_map]
  cases (s.items (f.get "keyFrames")).head? with
  | none => rfl
  | some first =>
    cases (s.items (f.get "keyFrames")).getLast? with
    | none => rfl
    | some last =>
      cases hfirst : hasValue (s.fields first) <;> cases hlast : hasValue (s.fields last) <;>
        simp [toFrame, hfirst, hlast]

theorem typed_of_frameRange? {typed : Slot → Bool} (h : s.typedFrames typed f = true)
    {ends : Slot × Slot} (hends : s.frameRange? f = some ends) :
    typed ends.1 = true ∧ typed ends.2 = true := by
  simp only [typedFrames, typedFrame, Bool.and_eq_true, List.all_eq_true] at h
  unfold frameRange? at hends
  dsimp only at hends
  split at hends
  next first last hfirst hlast =>
    split at hends
    next hvalues =>
      cases hends
      rw [Bool.and_eq_true] at hvalues
      have h1 := (h.2 first (List.mem_of_head? hfirst)).2
      have h2 := (h.2 last (List.mem_of_getLast? hlast)).2
      rw [if_pos hvalues.1] at h1
      rw [if_pos hvalues.2] at h2
      exact ⟨h1, h2⟩
    next => cases hends
  next => cases hends

theorem withColors_eq (h : s.typedFrames (s.isRecord colorNames) f = true) (base : String) :
    s.withColors base f = Naming.withRange base Color.name
      (Naming.range? (s.toFrames (fun v => some (s.toColor v)) f).keyFrames) := by
  rw [withColors, range?_toFrames]
  cases hends : s.frameRange? f with
  | none => rfl
  | some ends =>
    obtain ⟨hfirst, hlast⟩ := typed_of_frameRange? h hends
    simp only [Option.map_some, Naming.withRange, colorName, colorHex_eq, hfirst, hlast, Color.name]

theorem typedFrames_of_colorAnimation? (h : s.colorAnimation? slot = some f)
    (htyped : s.isTyped slot = true) : s.typedFrames (s.isRecord colorNames) f = true := by
  unfold colorAnimation? at h
  dsimp only at h
  split at h
  next htype =>
    cases h
    simp only [isTyped, beq_iff_eq.mp htype, Slot.toText, Slot.toText?, Option.getD_some,
      typedVariant] at htyped
    simp_all
  next => cases h

theorem baseName_eq {o : Object Slot} (hread : s.draft slot = .known o)
    (htyped : s.isTyped slot = true) (hbelow : ∀ i ∈ o.references, s.isTyped i = true) :
    s.baseName slot = Naming.baseName s.held o := by
  unfold baseName
  rw [hread]
  cases reads_of_draft hread with
  | @composition variant htype hvariant =>
    have htyped := (typed_composition htype hvariant htyped).2
    cases variant with
    | colorAnimation p k =>
      cases hvariant
      have hframes := ((Bool.and_eq_true _ _).mp htyped).2
      exact withColors_eq hframes _
    | colorBrush c =>
      cases hvariant
      unfold Naming.baseName Naming.variantName
      dsimp only
      split
      · rw [colorName, colorHex_eq htyped, Color.name]
      · rw [findSome?_colorFrames_held]
        cases hfound : (s.toBase (s.fields slot)).animators.findSome? fun a =>
            s.colorAnimation? a.animation with
        | none => rfl
        | some f =>
          obtain ⟨a, ha, hf⟩ := List.exists_of_findSome?_eq_some hfound
          have hanimation := animation_mem_animatorReferences (List.mem_map_of_mem ha)
          exact withColors_eq (typedFrames_of_colorAnimation? hf (hbelow _ hanimation)) _
    | _ => rfl
  | _ => rfl

end SceneCompiler.Sketch
