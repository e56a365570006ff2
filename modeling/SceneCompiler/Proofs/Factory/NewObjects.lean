import SceneCompiler.Proofs.Factory.Defaults
import SceneCompiler.Proofs.Sketch.Creation

/-!
# New objects

The compositor creates an object with the defaults of its variant and what the arguments of its method
set.  The statements of its factory settle the fields of the object from there.
-/

namespace SceneCompiler

variable {ρ : Type}

def Variant.newFields (ref : ρ → Datum) : Variant ρ → Attributes
  | .containerVisual _ => [("children", .list [])]
  | .shapeVisual _ _ _ => [("children", .list []), ("shapes", .list [])]
  | .insetClip _ => ({} : InsetClip).fields
  | .viewBox _ => []
  | .containerShape _ _ => [("shapes", .list [])]
  | .spriteShape _ _ => ({} : Sprite ρ).fields ref
  | .ellipseGeometry _ _ _ => ({} : Trim).fields ++ [("center", .ofVector2 Compositor.zero)]
  | .rectangleGeometry _ _ => ({} : Trim).fields
  | .roundedRectangleGeometry _ _ _ => ({} : Trim).fields
  | .pathGeometry _ path => ({} : Trim).fields ++ [("path", ref path)]
  | .colorBrush c => [("color", .ofColor c)]
  | .linearEasing => []
  | .cubicBezierEasing a b => [("controlPoint1", .ofVector2 a), ("controlPoint2", .ofVector2 b)]
  | .stepEasing _ => ({} : StepEasing).fields
  | .expressionAnimation _ _ => [("referenceParameters", .table [])]
  | .colorAnimation _ _ => [("referenceParameters", .table []), ("keyFrames", .list [])]
  | .scalarAnimation _ _ => [("referenceParameters", .table []), ("keyFrames", .list [])]
  | .vector2Animation _ _ => [("referenceParameters", .table []), ("keyFrames", .list [])]
  | .vector3Animation _ _ => [("referenceParameters", .table []), ("keyFrames", .list [])]
  | .pathAnimation _ _ => [("referenceParameters", .table []), ("keyFrames", .list [])]

def Variant.newObject (ref : ρ → Datum) (variant : Variant ρ) : Attributes :=
  [("animators", .list []), ("properties", .record Compositor.propertySet)] ++
    variant.newFields ref ++ [("type", .text variant.typeName)]

/-! ## Names of fields -/

def Visual.fieldNames : List String :=
  ["centerPoint", "clip", "offset", "rotationAngleInDegrees", "scale", "size", "children"]

def Placement.fieldNames : List String :=
  ["centerPoint", "offset", "rotationAngleInDegrees", "scale"]

def Sprite.fieldNames : List String :=
  ["fillBrush", "geometry", "strokeBrush", "isStrokeNonScaling", "strokeDashCap",
   "strokeDashOffset", "strokeDashArray", "strokeEndCap", "strokeLineJoin", "strokeStartCap",
   "strokeMiterLimit", "strokeThickness"]

def Trim.fieldNames : List String := ["trimStart", "trimEnd", "trimOffset"]

def Parameters.fieldNames : List String := ["target", "referenceParameters"]

def Frames.fieldNames : List String := ["keyFrames", "duration"]

def Variant.fieldNames : Variant ρ → List String
  | .containerVisual _ => Visual.fieldNames
  | .shapeVisual _ _ _ => Visual.fieldNames ++ ["shapes"] ++ ["viewBox"]
  | .insetClip _ =>
    ["centerPoint", "scale", "leftInset", "rightInset", "topInset", "bottomInset"]
  | .viewBox _ => ["size"]
  | .containerShape _ _ => Placement.fieldNames ++ ["shapes"]
  | .spriteShape _ _ => Placement.fieldNames ++ Sprite.fieldNames
  | .ellipseGeometry _ _ _ => Trim.fieldNames ++ ["center", "radius"]
  | .rectangleGeometry _ _ => Trim.fieldNames ++ ["size"]
  | .roundedRectangleGeometry _ _ _ => Trim.fieldNames ++ ["size", "cornerRadius"]
  | .pathGeometry _ _ => Trim.fieldNames ++ ["path"]
  | .colorBrush _ => ["color"]
  | .linearEasing => []
  | .cubicBezierEasing _ _ => ["controlPoint1", "controlPoint2"]
  | .stepEasing _ =>
    ["finalStep", "initialStep", "isFinalStepSingleFrame", "isInitialStepSingleFrame", "stepCount"]
  | .expressionAnimation _ _ => Parameters.fieldNames ++ ["expression"]
  | .colorAnimation _ _ => Parameters.fieldNames ++ Frames.fieldNames
  | .scalarAnimation _ _ => Parameters.fieldNames ++ Frames.fieldNames
  | .vector2Animation _ _ => Parameters.fieldNames ++ Frames.fieldNames
  | .vector3Animation _ _ => Parameters.fieldNames ++ Frames.fieldNames
  | .pathAnimation _ _ => Parameters.fieldNames ++ Frames.fieldNames

section Names

variable (ref : ρ → Datum)

theorem sublist_optionalField {α : Type} (key : String) (f : α → Datum) (a : Option α) :
    ((optionalField key f a).map Prod.fst).Sublist [key] := by
  cases a <;> simp [optionalField]

theorem Visual.sublist_fields (v : Visual ρ) :
    ((v.fields ref).map Prod.fst).Sublist fieldNames := by
  simp only [fields, List.map_append]
  exact ((((((sublist_optionalField _ _ _).append (sublist_optionalField _ _ _)).append
    (sublist_optionalField _ _ _)).append (sublist_optionalField _ _ _)).append
    (sublist_optionalField _ _ _)).append (sublist_optionalField _ _ _)).append (.refl _)

theorem Placement.sublist_fields (q : Placement) : (q.fields.map Prod.fst).Sublist fieldNames := by
  simp only [fields, List.map_append]
  exact (((sublist_optionalField _ _ _).append (sublist_optionalField _ _ _)).append
    (sublist_optionalField _ _ _)).append (sublist_optionalField _ _ _)

theorem Sprite.sublist_fields (q : Sprite ρ) :
    ((q.fields ref).map Prod.fst).Sublist fieldNames := by
  simp only [fields, List.map_append]
  exact (((sublist_optionalField _ _ _).append (sublist_optionalField _ _ _)).append
    (sublist_optionalField _ _ _)).append (.refl _)

theorem Parameters.sublist_fields (q : Parameters ρ) :
    ((q.fields ref).map Prod.fst).Sublist fieldNames := by
  simp only [fields, List.map_append]
  exact (sublist_optionalField _ _ _).append (.refl _)

theorem Description.sublist_fields (d : Description) :
    (d.fields.map Prod.fst).Sublist ["comment", "shortDescription", "longDescription"] := by
  simp only [fields, List.map_append]
  exact ((sublist_optionalField _ _ _).append (sublist_optionalField _ _ _)).append
    (sublist_optionalField _ _ _)

theorem Variant.sublist_fields (variant : Variant ρ) :
    ((variant.fields ref).map Prod.fst).Sublist variant.fieldNames := by
  cases variant with
  | containerVisual v => exact v.sublist_fields ref
  | shapeVisual v shapes box =>
    simp only [fields, List.map_append]
    exact ((v.sublist_fields ref).append (.refl _)).append (sublist_optionalField _ _ _)
  | containerShape q shapes =>
    simp only [fields, List.map_append]
    exact q.sublist_fields.append (.refl _)
  | spriteShape q sprite =>
    simp only [fields, List.map_append]
    exact q.sublist_fields.append (sprite.sublist_fields ref)
  | expressionAnimation q _ | colorAnimation q _ | scalarAnimation q _ | vector2Animation q _
  | vector3Animation q _ | pathAnimation q _ =>
    simp only [fields, List.map_append]
    exact (q.sublist_fields ref).append (.refl _)
  | _ => exact .refl _

theorem nodup_fields (base : Base ρ) (variant : Variant ρ) :
    (((Object.composition base variant).fields ref).map Prod.fst).Nodup := by
  have hnodup : (["animators", "properties"] ++ variant.fieldNames ++
      ["comment", "shortDescription", "longDescription"] ++ ["type"]).Nodup := by
    cases variant <;> simp [Variant.fieldNames, Visual.fieldNames, Placement.fieldNames,
      Sprite.fieldNames, Trim.fieldNames, Parameters.fieldNames, Frames.fieldNames]
  refine List.Sublist.nodup ?_ hnodup
  simp only [Object.fields, List.map_append]
  exact (((List.Sublist.refl _).append (variant.sublist_fields ref)).append
    base.description.sublist_fields).append (.refl _)

theorem nodup_newObject (variant : Variant ρ) :
    ((variant.newObject ref).map Prod.fst).Nodup := by
  cases variant <;> simp [Variant.newObject, Variant.newFields, InsetClip.fields, Trim.fields,
    Sprite.fields, StepEasing.fields, optionalField]

theorem subset_newFields (variant : Variant ρ) :
    (variant.newFields ref).map Prod.fst ⊆ (variant.fields ref).map Prod.fst := by
  cases variant
  case spriteShape =>
    simp only [Variant.newFields, Variant.fields, Sprite.fields, optionalField, Option.toList_none,
      List.map_nil, List.nil_append, List.map_append, List.map_cons]
    exact List.Subset.trans (List.subset_append_right _ _) (List.subset_append_right _ _)
  all_goals
    simp [Variant.newFields, Variant.fields, InsetClip.fields, Trim.fields, StepEasing.fields,
      Parameters.fields, Frames.fields, Visual.fields]

theorem mem_newFields_of_list {list : ItemList} {variant : Variant ρ}
    (h : list.field ∈ variant.fieldNames) : (list.field, .list []) ∈ variant.newFields ref := by
  revert h
  cases list <;> cases variant <;> simp [ItemList.field, Variant.fieldNames, Visual.fieldNames,
    Placement.fieldNames, Sprite.fieldNames, Trim.fieldNames, Parameters.fieldNames,
    Frames.fieldNames, Variant.newFields, Sprite.fields]

end Names

/-! ## Creation -/

section Creation

theorem not_mem_fieldNames (variant : Variant ρ) :
    ∀ key ∈ ["animators", "properties", "type", "matrix"], key ∉ variant.fieldNames := by
  cases variant <;> simp [Variant.fieldNames, Visual.fieldNames, Placement.fieldNames,
    Sprite.fieldNames, Trim.fieldNames, Parameters.fieldNames, Frames.fieldNames]

theorem composition_eq (prototype : Variant String) :
    Compositor.composition prototype =
      [("animators", .list []), ("properties", .record Compositor.propertySet)] ++
        prototype.fields .ref ++ [("type", .text prototype.typeName)] := by
  simp [Compositor.composition, Object.fields, Object.typeName, animatorData, Description.fields,
    optionalField, Compositor.propertySet]

@[simp] theorem plain_propertySet : (Datum.record Compositor.propertySet).Plain := by
  refine .record ?_ ?_ <;> simp [Compositor.propertySet, PropertyValues.fields]

@[simp] theorem plain_vector2 (v : Vector2) : (Datum.ofVector2 v).Plain := by
  refine .record ?_ ?_ <;> simp

@[simp] theorem plain_color (c : Color) : (Datum.ofColor c).Plain := by
  refine .record ?_ ?_ <;> simp

@[simp] theorem plain_named {α : Type} [Named α] (a : α) : (Datum.ofNamed a).Plain :=
  .text _

structure Variant.IsPrototype (prototype : Variant String) (names : List String) : Prop where
  storable : ∀ field ∈ prototype.fields .ref,
    field.2.Plain ∨ field.1 ∈ names ∧ ∃ name, field.2 = .ref name
  nodup : names.Nodup
  subset : names ⊆ (prototype.fields .ref).map Prod.fst

theorem Variant.IsPrototype.not_mem {prototype : Variant String} {names : List String}
    (h : prototype.IsPrototype names) :
    ∀ key ∈ ["animators", "properties", "type", "matrix"], key ∉ names :=
  fun key hkey hname => not_mem_fieldNames prototype key hkey
    ((prototype.sublist_fields .ref).subset (h.subset hname))

theorem Variant.IsPrototype.isPrototype {prototype : Variant String} {names : List String}
    (h : prototype.IsPrototype names) :
    Compositor.IsPrototype (Compositor.composition prototype) names where
  nodup := nodup_fields .ref {} prototype
  typed := by simp [composition_eq]
  storable := by
    rw [composition_eq, List.forall_mem_append, List.forall_mem_append]
    refine ⟨⟨?_, h.storable⟩, ?_⟩
    · simp
    · simp
  nodup_names := h.nodup
  subset := by
    rw [composition_eq, List.map_append, List.map_append]
    exact List.Subset.trans h.subset
      (List.subset_append_of_subset_left _ (List.subset_append_right _ _))
  not_matrix := h.not_mem "matrix" (by simp)

theorem creates_newObject {method : String} {prototype : Variant String} {names : List String}
    (hmethod : Compositor.prototype? method = some (Compositor.composition prototype, names))
    (h : prototype.IsPrototype names) {ref : ρ → Datum} {variant : Variant ρ}
    (htype : prototype.typeName = variant.typeName) {arguments : List Datum}
    (hlength : arguments.length ≤ names.length)
    (hfields : (prototype.fields .ref).filter (fun field => !names.contains field.1) ++
      names.zip arguments = variant.newFields ref) :
    Compositor.Creates method arguments (variant.newObject ref) := by
  have hnames : ∀ key ∈ ["animators", "properties", "type", "matrix"],
      names.contains key = false := fun key hkey => by simpa using h.not_mem key hkey
  simp only [List.forall_mem_cons] at hnames
  obtain ⟨hanimators, hproperties, hname, _⟩ := hnames
  refine (Compositor.creates_of_prototype hmethod h.isPrototype hlength).perm ?_
  rw [composition_eq, Variant.newObject, ← hfields, ← htype]
  simp only [List.filter_append, List.filter_cons, List.filter_nil, hanimators, hproperties, hname,
    Bool.not_false, if_true, List.append_assoc]
  exact (List.perm_append_comm.append_left _).append_left _

variable {n : Nat} (p : Plan n) (s : Settings) (r : Fin n) (ref : Request n → Datum)
  (base : Base (Fin n)) (variant : Variant (Fin n))

theorem creation_variantFactory :
    ∃ method arguments, (Construction.variantFactory p s r base variant).creation =
        .call method arguments ∧
      Compositor.Creates (fieldOf method) (arguments.map (Operand.datum s ref))
        (variant.newObject fun i => ref (p.request r i)) := by
  cases variant
  case colorBrush | linearEasing | cubicBezierEasing =>
    refine ⟨_, _, Construction.creation_bareOr _ _, creates_newObject rfl ⟨?_, ?_, ?_⟩ ?_ ?_ ?_⟩
    · simp [Variant.fields]
    · simp
    · simp [Variant.fields]
    · simp only [Variant.typeName]
    · simp
    · simp [Variant.fields, Variant.newFields, Operand.datum]
  case pathGeometry =>
    refine ⟨_, _, rfl, creates_newObject rfl ⟨?_, ?_, ?_⟩ ?_ ?_ ?_⟩
    · simp [Variant.fields, Trim.fields]
    · simp
    · simp [Variant.fields]
    · simp only [Variant.typeName]
    · simp
    · simp [Variant.fields, Variant.newFields, Trim.fields, Construction.ask, Operand.datum]
  all_goals
    refine ⟨_, _, rfl, creates_newObject rfl ⟨?_, ?_, ?_⟩ ?_ ?_ ?_⟩
    · simp [Variant.fields, optionalField, Visual.fields, InsetClip.fields, Placement.fields,
        Sprite.fields, Trim.fields, StepEasing.fields, Parameters.fields, Frames.fields]
    · simp
    · simp [Variant.fields, Frames.fields]
    · simp only [Variant.typeName]
    · simp
    · simp [Variant.fields, Variant.newFields, optionalField, Visual.fields, Placement.fields,
        Sprite.fields, Trim.fields, Parameters.fields, Frames.fields]

end Creation

/-! ## Settling the fields of a new object -/

section Settle

variable {ρ : Type} {ref : ρ → Datum} {variant : Variant ρ}

theorem lacks_newObject (ref : ρ → Datum) (variant : Variant ρ) (key : String)
    (hkey : key ∉ (variant.newObject ref).map Prod.fst) : Lacks (variant.newObject ref) key :=
  fun _ h => hkey (List.mem_map_of_mem h)

theorem hasDefaults_newObject (ref : ρ → Datum) (variant : Variant ρ) {part : Attributes}
    (hpart : part ⊆ variant.newFields ref) : HasDefaults (variant.newObject ref) part := by
  intro field hfield v
  have hmem : (field.1, field.2) ∈ variant.newObject ref :=
    List.mem_append_left _ (List.mem_append_right _ (hpart hfield))
  have hnodup := nodup_newObject ref variant
  rw [← lookup_eq_some_iff_mem hnodup, lookup_of_mem_nodup hnodup hmem, Option.some.injEq]
  exact eq_comm

theorem not_mem_keys_newObject :
    "comment" ∉ (variant.newObject ref).map Prod.fst ∧
      "target" ∉ (variant.newObject ref).map Prod.fst := by
  cases variant <;> simp [Variant.newObject, Variant.newFields, InsetClip.fields, Trim.fields,
    Sprite.fields, StepEasing.fields, optionalField]

theorem mem_fieldNames_of_list {list : ItemList} {base : Base ρ} {v : Datum}
    (hv : (list.field, v) ∈ (Object.composition base variant).fields ref) :
    list.field ∈ variant.fieldNames := by
  have hmem := List.mem_map_of_mem (f := Prod.fst) hv
  simp only [Object.fields, List.map_append, List.mem_append] at hmem
  rcases hmem with ((hhead | hfield) | hdescription) | htype
  · cases list <;> simp [ItemList.field] at hhead
  · exact (variant.sublist_fields ref).subset hfield
  · have hname := base.description.sublist_fields.subset hdescription
    cases list <;> simp [ItemList.field] at hname
  · cases list <;> simp [ItemList.field] at htype

theorem precedes_newObject (ref : ρ → Datum) (base : Base ρ) (variant : Variant ρ) :
    Precedes (variant.newObject ref) ((Object.composition base variant).fields ref) := by
  refine ⟨nodup_newObject ref variant, nodup_fields ref base variant, ?_,
    not_mem_keys_newObject, fun list v hv => ?_⟩
  · intro key hkey
    rw [Variant.newObject, List.map_append, List.map_append, List.mem_append,
      List.mem_append] at hkey
    simp only [Object.fields, List.map_append, List.mem_append]
    rcases hkey with (hhead | hfield) | htype
    · exact .inl (.inl (.inl hhead))
    · exact .inl (.inl (.inr (subset_newFields ref variant hfield)))
    · exact .inr htype
  · exact List.mem_append_left _ (List.mem_append_right _
      (mem_newFields_of_list ref (mem_fieldNames_of_list hv)))

end Settle

section Factories

variable {n : Nat} (p : Plan n) (s : Settings) (r : Fin n)

theorem isQuiet_startAnimations (base : Base (Fin n)) :
    ∀ statement ∈ p.startAnimations r base, statement.isQuiet = true :=
  fun statement h => Statement.isQuiet_of_animates
    (coversStarts_animates.startAnimations r base statement h)

theorem settles_given {ref : ρ → Datum} {fresh : Attributes} {key : String}
    (hkey : key ∉ specialFields) {v : Datum} (hdefault : HasDefault fresh key v) :
    Settles s ref fresh [] [(key, v)] :=
  .pass (fun hdue => (due_iff_of_default hkey hdefault).mp hdue (.refl v))
    (list_ne_of_ordinary hkey) .done

variable (ref : Request n → Datum) (base : Base (Fin n))

def SettlesNew (variant : Variant (Fin n)) : Prop :=
  Settles s ref (variant.newObject fun i => ref (p.request r i))
    (Construction.variantFactory p s r base variant).statements
    ((Object.composition base variant).fields fun i => ref (p.request r i))

variable {p s r ref base}

section Own

variable {variant : Variant (Fin n)} {own : List (Statement (Request n))}
  (hown : Settles s ref (variant.newObject fun i => ref (p.request r i)) own
    (variant.fields fun i => ref (p.request r i)))

include hown

theorem settlesNew_started (hstatements : (Construction.variantFactory p s r base variant).statements =
    Construction.setUp s base ++ own ++ p.startAnimations r base) :
    SettlesNew p s r ref base variant :=
  settles_composition p r (lacks_newObject _ _ _ not_mem_keys_newObject.1) hstatements hown
    (isQuiet_startAnimations p r base)

theorem settlesNew_unstarted (hstatements :
    (Construction.variantFactory p s r base variant).statements = Construction.setUp s base ++ own) :
    SettlesNew p s r ref base variant :=
  settles_composition p r (lacks_newObject _ _ _ not_mem_keys_newObject.1)
    (hstatements.trans (List.append_nil _).symm) hown fun _ h => absurd h List.not_mem_nil

end Own

theorem lacks_target (variant : Variant (Fin n)) :
    Lacks (variant.newObject fun i => ref (p.request r i)) "target" :=
  lacks_newObject _ _ _ not_mem_keys_newObject.2

/-! ### Visuals and shapes -/

theorem settlesNew_containerVisual (v : Visual (Fin n)) :
    SettlesNew p s r ref base (.containerVisual v) := by
  refine settlesNew_started (settles_visual p r (fun key hkey => lacks_newObject _ _ key ?_) v) rfl
  revert key
  simp [Variant.newObject, Variant.newFields]

theorem settlesNew_shapeVisual (v : Visual (Fin n)) (shapes : List (Fin n)) (box : Option (Fin n)) :
    SettlesNew p s r ref base (.shapeVisual v shapes box) := by
  have hbox := lacks_newObject (fun i => ref (p.request r i)) (.shapeVisual v shapes box) "viewBox"
    (by simp [Variant.newObject, Variant.newFields])
  refine settlesNew_started (((settles_visual p r (fun key hkey => lacks_newObject _ _ key ?_) v).append
    (settles_fill (fun _ => ⟨_, rfl⟩) shapes)).append
    (settles_assignSome hbox ⟨rfl, by simp⟩ (fun i => stands_object (p.request r i)) box)) rfl
  revert key
  simp [Variant.newObject, Variant.newFields]

theorem settlesNew_containerShape (q : Placement) (shapes : List (Fin n)) :
    SettlesNew p s r ref base (.containerShape q shapes) := by
  refine settlesNew_started ((settles_placement (fun key hkey => lacks_newObject _ _ key ?_) q).append
    (settles_fill (fun _ => ⟨[], rfl⟩) shapes)) rfl
  revert key
  simp [Variant.newObject, Variant.newFields]

theorem settlesNew_spriteShape (q : Placement) (sprite : Sprite (Fin n)) :
    SettlesNew p s r ref base (.spriteShape q sprite) := by
  refine settlesNew_started ((settles_placement (fun key hkey => lacks_newObject _ _ key ?_) q).append
    (settles_sprite p r (fun key hkey => lacks_newObject _ _ key ?_)
      (hasDefaults_newObject _ _ (List.Subset.refl _)) sprite)) rfl <;>
  · revert key
    simp [Variant.newObject, Variant.newFields, Sprite.fields, optionalField]

/-! ### Geometries -/

theorem settlesNew_ellipseGeometry (t : Trim) (center radius : Vector2) :
    SettlesNew p s r ref base (.ellipseGeometry t center radius) := by
  have hcenter := hasDefaults_newObject (fun i => ref (p.request r i)) (.ellipseGeometry t center radius)
    (List.subset_append_right _ _) _ List.mem_cons_self
  have hradius := lacks_newObject (fun i => ref (p.request r i))
    (.ellipseGeometry t center radius) "radius"
    (by simp [Variant.newObject, Variant.newFields, Trim.fields])
  exact settlesNew_started (((settles_trim
    (hasDefaults_newObject _ _ (List.subset_append_left _ _)) t).append
    (settles_vector2 hcenter ⟨rfl, by simp⟩ center)).append
    (settles_assign hradius ⟨rfl, by simp⟩ (stands_vector2 radius))) rfl

theorem settlesNew_rectangleGeometry (t : Trim) (size : Vector2) :
    SettlesNew p s r ref base (.rectangleGeometry t size) := by
  have hsize := lacks_newObject (fun i => ref (p.request r i)) (.rectangleGeometry t size) "size"
    (by simp [Variant.newObject, Variant.newFields, Trim.fields])
  exact settlesNew_started ((settles_trim
    (hasDefaults_newObject _ _ (List.Subset.refl _)) t).append
    (settles_assign hsize ⟨rfl, by simp⟩ (stands_vector2 size))) rfl

theorem settlesNew_roundedRectangleGeometry (t : Trim) (size radius : Vector2) :
    SettlesNew p s r ref base (.roundedRectangleGeometry t size radius) := by
  have hsize := lacks_newObject (fun i => ref (p.request r i))
    (.roundedRectangleGeometry t size radius) "size"
    (by simp [Variant.newObject, Variant.newFields, Trim.fields])
  have hradius := lacks_newObject (fun i => ref (p.request r i))
    (.roundedRectangleGeometry t size radius) "cornerRadius"
    (by simp [Variant.newObject, Variant.newFields, Trim.fields])
  exact settlesNew_started ((settles_trim
    (hasDefaults_newObject _ _ (List.Subset.refl _)) t).append
    (.reorder (.swap _ _ _) ((settles_assign hradius ⟨rfl, by simp⟩ (stands_vector2 radius)).append
      (settles_assign hsize ⟨rfl, by simp⟩ (stands_vector2 size))))) rfl

theorem settlesNew_pathGeometry (t : Trim) (path : Fin n) :
    SettlesNew p s r ref base (.pathGeometry t path) := by
  have hpath := hasDefaults_newObject (fun i => ref (p.request r i)) (.pathGeometry t path)
    (List.subset_append_right _ _) _ List.mem_cons_self
  exact settlesNew_started ((settles_trim
    (hasDefaults_newObject _ _ (List.subset_append_left _ _)) t).append
    (settles_given s (by simp) hpath)) (by simp [Construction.variantFactory])

/-! ### Every variant -/

theorem settlesNew_cubicBezierEasing (a b : Vector2) :
    SettlesNew p s r ref base (.cubicBezierEasing a b) := by
  have hpoints := hasDefaults_newObject (fun i => ref (p.request r i)) (.cubicBezierEasing a b)
    (List.Subset.refl _)
  simp only [HasDefaults, Variant.newFields, List.forall_mem_cons] at hpoints
  exact settlesNew_unstarted ((settles_given s (by simp) hpoints.1).append
    (settles_given s (by simp) hpoints.2.1)) (by simp [Construction.variantFactory])

theorem settlesNew_expressionAnimation (q : Parameters (Fin n)) (expression : String) :
    SettlesNew p s r ref base (.expressionAnimation q expression) := by
  have hexpression := lacks_newObject (fun i => ref (p.request r i))
    (.expressionAnimation q expression) "expression" (by simp [Variant.newObject, Variant.newFields])
  have hassign : Settles s ref _ [Construction.assign "Expression" (.text expression)] _ :=
    settles_assign hexpression ⟨rfl, by simp⟩ (stands_text (by simp) expression)
  exact settlesNew_unstarted ((settles_parameters p r (lacks_target _) q).append hassign)
    (by simp [Construction.variantFactory])

theorem settles_variantFactory (variant : Variant (Fin n)) : SettlesNew p s r ref base variant := by
  cases variant with
  | containerVisual v => exact settlesNew_containerVisual v
  | shapeVisual v shapes box => exact settlesNew_shapeVisual v shapes box
  | insetClip c =>
    exact settlesNew_started
      (settles_insetClip (hasDefaults_newObject _ _ (List.Subset.refl _)) c) rfl
  | viewBox size =>
    have hsize := lacks_newObject (fun i => ref (p.request r i)) (.viewBox size) "size"
      (by simp [Variant.newObject, Variant.newFields])
    exact settlesNew_started (settles_assign hsize ⟨rfl, by simp⟩ (stands_vector2 size)) rfl
  | containerShape q shapes => exact settlesNew_containerShape q shapes
  | spriteShape q sprite => exact settlesNew_spriteShape q sprite
  | ellipseGeometry t center radius => exact settlesNew_ellipseGeometry t center radius
  | rectangleGeometry t size => exact settlesNew_rectangleGeometry t size
  | roundedRectangleGeometry t size radius =>
    exact settlesNew_roundedRectangleGeometry t size radius
  | pathGeometry t path => exact settlesNew_pathGeometry t path
  | colorBrush c =>
    have hcolor := hasDefaults_newObject (fun i => ref (p.request r i)) (.colorBrush c)
      (List.Subset.refl _) _ List.mem_cons_self
    exact settlesNew_started (settles_given s (by simp) hcolor) (by simp [Construction.variantFactory])
  | linearEasing => exact settlesNew_unstarted .done (by simp [Construction.variantFactory])
  | cubicBezierEasing a b => exact settlesNew_cubicBezierEasing a b
  | stepEasing e =>
    exact settlesNew_unstarted
      (settles_stepEasing (hasDefaults_newObject _ _ (List.Subset.refl _)) e) rfl
  | expressionAnimation q expression => exact settlesNew_expressionAnimation q expression
  | colorAnimation q f | scalarAnimation q f | vector2Animation q f | vector3Animation q f
  | pathAnimation q f =>
    refine settlesNew_started (settles_frames p r (lacks_target _) ?_ q f _ _ _) rfl
    exact lacks_newObject _ _ _ (by simp [Variant.newObject, Variant.newFields])

end Factories

/-! ## Made objects -/

/-- A factory that makes an object with the settable properties `own`: the method that it calls creates
one with the fields `fresh`, and its statements restore the properties from there. -/
structure Factory.Makes (s : Settings) (ref : ρ → Datum) (fresh own : Attributes)
    (factory : Factory ρ) : Prop where
  created : ∃ method arguments, factory.creation = .call method arguments ∧
    Compositor.Creates (fieldOf method) (arguments.map (Operand.datum s ref)) fresh
  restored : Restores s ref fresh own factory.statements

theorem Plan.makes_factory {n : Nat} (p : Plan n) (s : Settings) (ref : Request n → Datum) {r : Fin n}
    {base : Base (Fin n)} {variant : Variant (Fin n)}
    (hobject : p.merge.object r = .composition base variant) :
    (p.factory s r).Makes s ref (variant.newObject fun i => ref (p.request r i))
      ((Object.composition base variant).settable s fun i => ref (p.request r i)) := by
  rw [Plan.factory, hobject]
  exact ⟨creation_variantFactory ..,
    (settles_variantFactory variant).restores (precedes_newObject _ base variant)⟩

theorem Creation.exists_call {σ : Type} {f : ρ → σ} {creation : Creation ρ} {method : String}
    {arguments : List (Operand σ)} (h : creation.map f = .call method arguments) :
    ∃ given, creation = .call method given ∧ given.map (Operand.map f) = arguments := by
  cases creation with
  | call method' given =>
    rw [Creation.map_call] at h
    cases h
    exact ⟨given, rfl, rfl⟩
  | _ => cases h

theorem Factory.Makes.of_map {σ : Type} {f : ρ → σ} {s : Settings} {ref : σ → Datum}
    {fresh own : Attributes} {factory : Factory ρ} (h : (factory.map f).Makes s ref fresh own) :
    factory.Makes s (ref ∘ f) fresh own where
  created := by
    obtain ⟨method, arguments, hcall, hcreates⟩ := h.created
    obtain ⟨given, hcreation, rfl⟩ := Creation.exists_call hcall
    refine ⟨method, given, hcreation, ?_⟩
    simpa only [List.map_map, Function.comp_def, Operand.datum_map] using hcreates
  restored := h.restored.of_map

end SceneCompiler
