import SceneCompiler.Proofs.Document.Acceptance
import SceneCompiler.Proofs.Model.Invariance

/-!
# Documents with their ids renamed

Ids stand in certain places of a document: they are the keys of its objects, its root, and what the
records mention.  A renaming changes them there and nothing else.  What a record describes is then
renamed in the same way.
-/

namespace SceneCompiler

open Members

/-! ## The places of ids -/

/-- A part of a record, by what ids may stand in it. -/
inductive Part where
  | plain
  | id
  | ids
  | animators
  | animator
  | controller
  | propertySet
  | frames (paths : Bool)
  | frame (paths : Bool)
  | composition (type : String)
  | path
  | combination
deriving DecidableEq

namespace Part

/-- The members of composition objects that hold ids, by type, apart from those that all have. -/
def compositionMembers : List (String × List (String × Part)) :=
  [("ContainerVisual", [("clip", id), ("children", ids)]),
   ("ShapeVisual", [("clip", id), ("children", ids), ("shapes", ids), ("viewBox", id)]),
   ("CompositionContainerShape", [("shapes", ids)]),
   ("CompositionSpriteShape", [("fillBrush", id), ("geometry", id), ("strokeBrush", id)]),
   ("CompositionPathGeometry", [("path", id)]),
   ("ExpressionAnimation", [("referenceParameters", ids)]),
   ("ColorKeyFrameAnimation", [("referenceParameters", ids), ("keyFrames", frames false)]),
   ("ScalarKeyFrameAnimation", [("referenceParameters", ids), ("keyFrames", frames false)]),
   ("Vector2KeyFrameAnimation", [("referenceParameters", ids), ("keyFrames", frames false)]),
   ("Vector3KeyFrameAnimation", [("referenceParameters", ids), ("keyFrames", frames false)]),
   ("PathKeyFrameAnimation", [("referenceParameters", ids), ("keyFrames", frames true)])]

def members : Part → List (String × Part)
  | animator => [("animation", id), ("controller", controller)]
  | controller => [("properties", propertySet), ("animators", animators)]
  | propertySet => [("animators", animators)]
  | frame paths => ("easing", id) :: if paths then [("value", id)] else []
  | composition type =>
    (compositionMembers.lookup type).getD [] ++
      [("properties", propertySet), ("animators", animators)]
  | path => [("source", id)]
  | combination => [("a", id), ("b", id)]
  | _ => []

def member (part : Part) (key : String) : Part :=
  match part with
  | ids => id
  | part => (part.members.lookup key).getD plain

def item : Part → Part
  | ids => id
  | animators => animator
  | frames paths => frame paths
  | _ => plain

def idMembers : List String :=
  ["clip", "children", "shapes", "viewBox", "fillBrush", "geometry", "strokeBrush", "path",
   "referenceParameters", "keyFrames", "properties", "animators"]

theorem member_composition (type : String) {key : String} (h : key ∉ idMembers) :
    (composition type).member key = plain := by
  have htable : ∀ entry ∈ compositionMembers, ∀ m ∈ entry.2, m.1 ∈ idMembers := by decide
  have hmembers : ∀ m ∈ (composition type).members, m.1 ∈ idMembers := by
    intro m hm
    rcases List.mem_append.mp hm with hm | hm
    · cases hlookup : compositionMembers.lookup type with
      | none =>
        rw [hlookup] at hm
        cases hm
      | some own =>
        rw [hlookup] at hm
        obtain ⟨before, after, heq, _⟩ := List.lookup_eq_some_iff.mp hlookup
        exact htable (type, own) (heq ▸ by simp) m hm
    · have hcommon : ∀ m ∈ [("properties", propertySet), ("animators", animators)],
          m.1 ∈ idMembers := by decide
      exact hcommon m hm
  have hnone : (composition type).members.lookup key = none := by
    rw [List.lookup_eq_none_iff]
    intro m hm
    rw [bne_iff_ne]
    rintro rfl
    exact h (hmembers m hm)
  simp [member, hnone]

def ofGeometry (geometryType : Option Json) : Part :=
  match geometryType with
  | some (.string type) => if type = "Combination" then combination else plain
  | _ => plain

def ofRecord (ms : Members) : Part :=
  match ms.lookup "type" with
  | some (.string type) =>
    if type = "CanvasGeometry" then ofGeometry (ms.lookup "geometryType")
    else if type = "CompositionPath" then path
    else composition type
  | _ => plain

end Part

mutual
def Json.rename (f : String → String) (part : Part) : Json → Json
  | .string s => .string (if part = .id then f s else s)
  | .array items => .array (renameItems f part.item items)
  | .object ms => .object (renameMembers f part ms)
  | j => j
def renameItems (f : String → String) (part : Part) : List Json → List Json
  | [] => []
  | j :: rest => j.rename f part :: renameItems f part rest
def renameMembers (f : String → String) (part : Part) : Members → Members
  | [] => []
  | (key, j) :: rest => (key, j.rename f (part.member key)) :: renameMembers f part rest
end

/-! ## Members -/

section Members

variable {f : String → String} {part : Part} {ms : Members} {key : String}

theorem renameItems_eq_map (items : List Json) :
    renameItems f part items = items.map (Json.rename f part) := by
  induction items with
  | nil => simp [renameItems]
  | cons j items ih => simp [renameItems, ih]

mutual
theorem rename_plain (j : Json) : j.rename f .plain = j := by
  cases j with
  | array items => simp [Json.rename, Part.item, renameItems_plain items]
  | object ms => simp [Json.rename, renameMembers_plain ms]
  | _ => simp [Json.rename]
theorem renameItems_plain (items : List Json) : renameItems f .plain items = items := by
  cases items with
  | nil => simp [renameItems]
  | cons j items => simp [renameItems, rename_plain j, renameItems_plain items]
theorem renameMembers_plain (ms : Members) : renameMembers f .plain ms = ms := by
  cases ms with
  | nil => simp [renameMembers]
  | cons m ms =>
    rcases m with ⟨key, j⟩
    have hmember : Part.plain.member key = .plain := rfl
    simp [renameMembers, hmember, rename_plain j, renameMembers_plain ms]
end

theorem lookup_renameMembers (key : String) :
    (renameMembers f part ms).lookup key =
      (ms.lookup key).map (Json.rename f (part.member key)) := by
  have hmap : renameMembers f part ms = ms.map fun m => (m.1, m.2.rename f (part.member m.1)) := by
    induction ms with
    | nil => simp [renameMembers]
    | cons m ms ih => simp [renameMembers, ih]
  rw [hmap]
  exact lookup_map_entry (f := id) (fun key => Json.rename f (part.member key)) fun _ _ h => h

theorem lookup_plain (hpart : part.member key = .plain) :
    (renameMembers f part ms).lookup key = ms.lookup key := by
  rw [lookup_renameMembers, hpart]
  cases ms.lookup key <;> simp [rename_plain]

variable {α β : Type} {F : Format α} {G : Format β} {q : Part}

theorem Members.Required.plain {a : α} (h : Required ms key F a)
    (hpart : part.member key = .plain) : Required (renameMembers f part ms) key F a := by
  rw [Required, lookup_plain hpart]
  exact h

theorem Members.Optional.plain {a : Option α} (h : Optional ms key F a)
    (hpart : part.member key = .plain) : Optional (renameMembers f part ms) key F a := by
  cases a with
  | some a => exact Required.plain h hpart
  | none => exact (lookup_plain hpart).trans h

theorem Members.Defaulted.plain {a default : α} (h : Defaulted ms key default F a)
    (hpart : part.member key = .plain) : Defaulted (renameMembers f part ms) key default F a := by
  rw [Defaulted, Required, lookup_plain hpart]
  exact h

theorem Members.Required.rename {a : α} {b : β} (h : Required ms key F a)
    (hpart : part.member key = q) (hF : ∀ j, F j a → G (j.rename f q) b) :
    Required (renameMembers f part ms) key G b := by
  obtain ⟨j, hj, ha⟩ := h
  exact ⟨_, by rw [lookup_renameMembers, hj, hpart, Option.map_some], hF j ha⟩

theorem Members.Optional.rename {a : Option α} {g : α → β} (h : Optional ms key F a)
    (hpart : part.member key = q) (hF : ∀ j a, F j a → G (j.rename f q) (g a)) :
    Optional (renameMembers f part ms) key G (a.map g) := by
  cases a with
  | some a => exact Required.rename h hpart fun j => hF j a
  | none =>
    change (renameMembers f part ms).lookup key = none
    rw [lookup_renameMembers, h, Option.map_none]

theorem Members.Defaulted.rename {a default : α} {g : α → β} (h : Defaulted ms key default F a)
    (hpart : part.member key = q) (hF : ∀ j a, F j a → G (j.rename f q) (g a)) :
    Defaulted (renameMembers f part ms) key (g default) G (g a) := by
  rcases h with h | ⟨hnone, rfl⟩
  · exact .inl (h.rename hpart fun j => hF j a)
  · exact .inr ⟨by rw [lookup_renameMembers, hnone, Option.map_none], rfl⟩

end Members

/-! ## Records without ids -/

section Plain

variable {f : String → String} {part : Part} {ms : Members}

theorem DescribesDescription.plain {d : Description} (h : DescribesDescription ms d)
    (hpart : ∀ key ∈ ["comment", "shortDescription", "longDescription"],
      part.member key = .plain) : DescribesDescription (renameMembers f part ms) d :=
  ⟨h.comment.plain (hpart _ (by simp)), h.short.plain (hpart _ (by simp)),
    h.long.plain (hpart _ (by simp))⟩

theorem DescribesValues.plain {values : PropertyValues} (h : DescribesValues ms values)
    (hpart : ∀ key ∈ ["scalars", "vector2s"], part.member key = .plain) :
    DescribesValues (renameMembers f part ms) values :=
  ⟨h.1.plain (hpart _ (by simp)), h.2.plain (hpart _ (by simp))⟩

theorem DescribesInsetClip.plain {c : InsetClip} (h : DescribesInsetClip ms c)
    (hpart : ∀ key ∈ ["centerPoint", "scale", "leftInset", "rightInset", "topInset", "bottomInset"],
      part.member key = .plain) : DescribesInsetClip (renameMembers f part ms) c :=
  ⟨h.centerPoint.plain (hpart _ (by simp)), h.scale.plain (hpart _ (by simp)),
    h.leftInset.plain (hpart _ (by simp)), h.rightInset.plain (hpart _ (by simp)),
    h.topInset.plain (hpart _ (by simp)), h.bottomInset.plain (hpart _ (by simp))⟩

theorem DescribesPlacement.plain {p : Placement} (h : DescribesPlacement ms p)
    (hpart : ∀ key ∈ ["centerPoint", "offset", "rotationAngleInDegrees", "scale"],
      part.member key = .plain) : DescribesPlacement (renameMembers f part ms) p :=
  ⟨h.centerPoint.plain (hpart _ (by simp)), h.offset.plain (hpart _ (by simp)),
    h.rotationAngleInDegrees.plain (hpart _ (by simp)), h.scale.plain (hpart _ (by simp))⟩

theorem DescribesTrim.plain {t : Trim} (h : DescribesTrim ms t)
    (hpart : ∀ key ∈ ["trimStart", "trimEnd", "trimOffset"], part.member key = .plain) :
    DescribesTrim (renameMembers f part ms) t :=
  ⟨h.start.plain (hpart _ (by simp)), h.stop.plain (hpart _ (by simp)),
    h.offset.plain (hpart _ (by simp))⟩

theorem DescribesStepEasing.plain {e : StepEasing} (h : DescribesStepEasing ms e)
    (hpart : ∀ key ∈ ["finalStep", "initialStep", "isFinalStepSingleFrame",
      "isInitialStepSingleFrame", "stepCount"], part.member key = .plain) :
    DescribesStepEasing (renameMembers f part ms) e :=
  ⟨h.finalStep.plain (hpart _ (by simp)), h.initialStep.plain (hpart _ (by simp)),
    h.isFinalStepSingleFrame.plain (hpart _ (by simp)),
    h.isInitialStepSingleFrame.plain (hpart _ (by simp)), h.stepCount.plain (hpart _ (by simp))⟩

end Plain

/-! ## Formats -/

section Formats

variable {f : String → String} (hf : ∀ id, id ≠ "" → f id ≠ "")

include hf

theorem Format.id_rename (j : Json) (id : String) (h : Format.id j id) :
    Format.id (j.rename f .id) (f id) := by
  obtain ⟨rfl, hne⟩ := h
  refine ⟨by simp [Format.string, Json.rename], ?_⟩
  simpa using hf id (by simpa using hne)

theorem Format.ids_rename (j : Json) (ids : List String) (h : Format.list Format.id j ids) :
    Format.list Format.id (j.rename f .ids) (ids.map f) := by
  obtain ⟨items, rfl, hitems⟩ := h
  refine ⟨items.map (Json.rename f .id), by simp [Json.rename, renameItems_eq_map, Part.item], ?_⟩
  rw [List.forall₂_map_left_iff, List.forall₂_map_right_iff]
  exact hitems.imp (Format.id_rename hf)

theorem Format.idMap_rename (j : Json) (entries : List (String × String))
    (h : Format.map Format.id j entries) :
    Format.map Format.id (j.rename f .ids) (entries.map fun e => (e.1, f e.2)) := by
  obtain ⟨ms, all, rfl, hall, rfl⟩ := h
  refine ⟨renameMembers f .ids ms, all.map fun e => (e.1, f e.2), by simp [Json.rename], ?_, ?_⟩
  · induction hall with
    | nil => simp [renameMembers]
    | @cons m e ms all hentry _ ih =>
      rcases m with ⟨key, j⟩
      have hmember : Part.ids.member key = .id := rfl
      rw [renameMembers, List.map_cons, hmember]
      exact .cons ⟨hentry.1, Format.id_rename hf j e.2 hentry.2⟩ ih
  · rw [List.filter_map]
    rfl

variable {ms : Members} {part : Part}

theorem Members.Required.renameId {key id : String} (h : Required ms key Format.id id)
    (hpart : part.member key = .id) : Required (renameMembers f part ms) key Format.id (f id) :=
  h.rename hpart fun j => Format.id_rename hf j id

theorem DescribesVisual.rename {v : Visual String} (h : DescribesVisual ms v)
    (hclip : part.member "clip" = .id) (hchildren : part.member "children" = .ids)
    (hpart : ∀ key ∈ ["centerPoint", "offset", "rotationAngleInDegrees", "scale", "size"],
      part.member key = .plain) : DescribesVisual (renameMembers f part ms) (v.map f) :=
  ⟨h.centerPoint.plain (hpart _ (by simp)), h.clip.rename hclip (Format.id_rename hf),
    h.offset.plain (hpart _ (by simp)), h.rotationAngleInDegrees.plain (hpart _ (by simp)),
    h.scale.plain (hpart _ (by simp)), h.size.plain (hpart _ (by simp)),
    h.children.rename hchildren (Format.ids_rename hf)⟩

theorem DescribesSprite.rename {q : Sprite String} (h : DescribesSprite ms q)
    (hid : ∀ key ∈ ["fillBrush", "geometry", "strokeBrush"], part.member key = .id)
    (hpart : ∀ key ∈ ["isStrokeNonScaling", "strokeDashCap", "strokeDashOffset", "strokeDashArray",
      "strokeEndCap", "strokeLineJoin", "strokeStartCap", "strokeMiterLimit", "strokeThickness"],
      part.member key = .plain) : DescribesSprite (renameMembers f part ms) (q.map f) :=
  ⟨h.fillBrush.rename (hid _ (by simp)) (Format.id_rename hf),
    h.geometry.rename (hid _ (by simp)) (Format.id_rename hf),
    h.isStrokeNonScaling.plain (hpart _ (by simp)),
    h.strokeBrush.rename (hid _ (by simp)) (Format.id_rename hf),
    h.strokeDashCap.plain (hpart _ (by simp)), h.strokeDashOffset.plain (hpart _ (by simp)),
    h.strokeDashArray.plain (hpart _ (by simp)), h.strokeEndCap.plain (hpart _ (by simp)),
    h.strokeLineJoin.plain (hpart _ (by simp)), h.strokeStartCap.plain (hpart _ (by simp)),
    h.strokeMiterLimit.plain (hpart _ (by simp)), h.strokeThickness.plain (hpart _ (by simp))⟩

theorem DescribesParameters.rename {p : Parameters String} (h : DescribesParameters ms p)
    (htarget : part.member "target" = .plain)
    (hreferences : part.member "referenceParameters" = .ids) :
    DescribesParameters (renameMembers f part ms) (p.map f) :=
  ⟨h.target.plain htarget, h.references.rename hreferences (Format.idMap_rename hf)⟩

theorem keyFrame_rename {α : Type} {F : Format α} (j : Json) (frame : KeyFrame String α)
    (h : Format.keyFrame F j frame) :
    Format.keyFrame F (j.rename f (.frame false)) (frame.map f id) := by
  obtain ⟨ms, rfl, hprogress, hvalue, heasing⟩ := h
  refine ⟨renameMembers f (.frame false) ms, by simp [Json.rename], hprogress.plain rfl, ?_,
    heasing.renameId hf rfl⟩
  simp only [KeyFrame.map, FrameValue.map_id]
  cases hframe : frame.value with
  | value v =>
    rw [hframe] at hvalue
    exact ⟨hvalue.1.plain rfl, (lookup_plain rfl).trans hvalue.2⟩
  | expression text =>
    rw [hframe] at hvalue
    exact ⟨(lookup_plain rfl).trans hvalue.1, hvalue.2.plain rfl⟩

theorem pathKeyFrame_rename (j : Json) (frame : KeyFrame String String)
    (h : Format.pathKeyFrame j frame) :
    Format.pathKeyFrame (j.rename f (.frame true)) (frame.map f f) := by
  obtain ⟨ms, rfl, hprogress, ⟨path, hpath, hvalue⟩, heasing⟩ := h
  refine ⟨renameMembers f (.frame true) ms, by simp [Json.rename], hprogress.plain rfl,
    ⟨f path, ?_, hvalue.renameId hf rfl⟩, heasing.renameId hf rfl⟩
  simp [KeyFrame.map, hpath, FrameValue.map]

omit hf in
theorem DescribesFrames.rename {α β : Type} {F : Format (KeyFrame String α)}
    {G : Format (KeyFrame String β)} {g : α → β} {paths : Bool} {frames : Frames String α}
    (h : DescribesFrames F ms frames)
    (hF : ∀ j frame, F j frame → G (j.rename f (.frame paths)) (frame.map f g))
    (hduration : part.member "duration" = .plain)
    (hframes : part.member "keyFrames" = .frames paths) :
    DescribesFrames G (renameMembers f part ms) (frames.map f g) := by
  refine ⟨h.duration.plain hduration, h.keyFrames.rename hframes fun j keyFrames hj => ?_⟩
  obtain ⟨items, rfl, hitems⟩ := hj
  refine ⟨items.map (Json.rename f (.frame paths)),
    by simp [Json.rename, renameItems_eq_map, Part.item], ?_⟩
  rw [List.forall₂_map_left_iff, List.forall₂_map_right_iff]
  exact hitems.imp hF

/-! ## Animators -/

omit hf in
theorem Members.Items.rename {key : String} {as : List (Animator String)} {P Q : List Json → Prop}
    (h : Items ms key as P) (hpart : part.member key = .animators)
    (hP : ∀ items, P items → Q (renameItems f .animator items)) :
    Items (renameMembers f part ms) key (mapAnimators f as) Q := by
  rcases h with ⟨items, hitems, hall⟩ | ⟨hnone, rfl⟩
  · refine .inl ⟨_, ?_, hP items hall⟩
    rw [lookup_renameMembers, hitems, hpart]
    simp [Json.rename, Part.item]
  · refine .inr ⟨?_, by simp [mapAnimators]⟩
    rw [lookup_renameMembers, hnone, Option.map_none]

omit hf in
theorem Members.PropertySet.rename {values : PropertyValues} {as : List (Animator String)}
    {P Q : List Json → Prop} (h : PropertySet ms values as P)
    (hpart : part.member "properties" = .propertySet)
    (hP : ∀ items, P items → Q (renameItems f .animator items)) :
    PropertySet (renameMembers f part ms) values (mapAnimators f as) Q := by
  rcases h with ⟨ps, hps, hvalues, hitems⟩ | ⟨hnone, rfl, rfl⟩
  · refine .inl ⟨renameMembers f .propertySet ps, ?_, hvalues.plain (by decide),
      hitems.rename rfl hP⟩
    rw [lookup_renameMembers, hps, hpart]
    simp [Json.rename]
  · refine .inr ⟨?_, rfl, by simp [mapAnimators]⟩
    rw [lookup_renameMembers, hnone, Option.map_none]

end Formats

mutual
theorem isAnimator_rename {f : String → String} (hf : ∀ id, id ≠ "" → f id ≠ "") (j : Json)
    (a : Animator String) (h : IsAnimator j a) : IsAnimator (j.rename f .animator) (a.map f) := by
  cases j with
  | object ms =>
    rw [Json.rename]
    cases a with
    | plain property animation =>
      rw [IsAnimator] at h
      obtain ⟨hproperty, hanimation, hcontroller⟩ := h
      rw [Animator.map, IsAnimator]
      refine ⟨hproperty.plain rfl, hanimation.renameId hf rfl, ?_⟩
      rw [lookup_renameMembers, hcontroller, Option.map_none]
    | controlled property animation values onProperties onController =>
      rw [IsAnimator] at h
      obtain ⟨hproperty, hanimation, cs, hcs, hproperties, hitems⟩ := h
      rw [Animator.map, IsAnimator]
      refine ⟨hproperty.plain rfl, hanimation.renameId hf rfl,
        renameMembers f .controller cs, ?_,
        hproperties.rename rfl fun items => areAnimators_rename hf items onProperties,
        hitems.rename rfl fun items => areAnimators_rename hf items onController⟩
      have hmember : Part.animator.member "controller" = .controller := rfl
      rw [lookup_renameMembers, hcs, hmember]
      simp [Json.rename]
  | _ => simp [IsAnimator] at h
theorem areAnimators_rename {f : String → String} (hf : ∀ id, id ≠ "" → f id ≠ "")
    (items : List Json) (as : List (Animator String)) (h : AreAnimators items as) :
    AreAnimators (renameItems f .animator items) (mapAnimators f as) := by
  cases as with
  | nil =>
    cases items with
    | nil => simp [renameItems, mapAnimators, AreAnimators]
    | cons j items => simp [AreAnimators] at h
  | cons a as =>
    cases items with
    | nil => simp [AreAnimators] at h
    | cons j items =>
      rw [AreAnimators] at h
      rw [renameItems, mapAnimators, AreAnimators]
      exact ⟨isAnimator_rename hf j a h.1, areAnimators_rename hf items as h.2⟩
end

/-! ## Records -/

section Records

variable {f : String → String} (hf : ∀ id, id ≠ "" → f id ≠ "") {ms : Members}

include hf

theorem DescribesBase.rename {part : Part} {b : Base String} (h : DescribesBase ms b)
    (hproperties : part.member "properties" = .propertySet)
    (hanimators : part.member "animators" = .animators)
    (hpart : ∀ key ∈ ["comment", "shortDescription", "longDescription"],
      part.member key = .plain) : DescribesBase (renameMembers f part ms) (b.map f) :=
  ⟨h.description.plain hpart,
    h.properties.rename hproperties fun items => areAnimators_rename hf items b.onProperties,
    h.animators.rename hanimators fun items => areAnimators_rename hf items b.onObject⟩

theorem describesVariant_rename (v : Variant String) (h : DescribesVariant ms v) :
    DescribesVariant (renameMembers f (.composition v.typeName) ms) (v.map f) := by
  have hplain {keys : List String} (hkeys : ∀ key ∈ keys, key ∉ Part.idMembers) :
      ∀ key ∈ keys, (Part.composition v.typeName).member key = .plain :=
    fun key hkey => Part.member_composition _ (hkeys key hkey)
  cases v with
  | containerVisual v => exact DescribesVisual.rename hf h rfl rfl (hplain (by decide))
  | shapeVisual v shapes box =>
    exact ⟨h.1.rename hf rfl rfl (hplain (by decide)), h.2.1.rename rfl (Format.ids_rename hf),
      h.2.2.rename rfl (Format.id_rename hf)⟩
  | insetClip c => exact DescribesInsetClip.plain h (hplain (by decide))
  | viewBox size => exact Required.plain h rfl
  | containerShape p shapes =>
    exact ⟨h.1.plain (hplain (by decide)), h.2.rename rfl (Format.ids_rename hf)⟩
  | spriteShape p q =>
    refine ⟨h.1.plain (hplain (by decide)), h.2.rename hf ?_ (hplain (by decide))⟩
    rw [Variant.typeName]
    decide
  | ellipseGeometry t center radius =>
    exact ⟨h.1.plain (hplain (by decide)), h.2.1.plain rfl, h.2.2.plain rfl⟩
  | rectangleGeometry t size => exact ⟨h.1.plain (hplain (by decide)), h.2.plain rfl⟩
  | roundedRectangleGeometry t size radius =>
    exact ⟨h.1.plain (hplain (by decide)), h.2.1.plain rfl, h.2.2.plain rfl⟩
  | pathGeometry t path => exact ⟨h.1.plain (hplain (by decide)), h.2.renameId hf rfl⟩
  | colorBrush color => exact Required.plain h rfl
  | linearEasing => trivial
  | cubicBezierEasing a b => exact ⟨h.1.plain rfl, h.2.plain rfl⟩
  | stepEasing e => exact DescribesStepEasing.plain h (hplain (by decide))
  | expressionAnimation p expression => exact ⟨h.1.rename hf rfl rfl, h.2.plain rfl⟩
  | colorAnimation p frames | scalarAnimation p frames | vector2Animation p frames
  | vector3Animation p frames =>
    exact ⟨h.1.rename hf rfl rfl, h.2.rename (keyFrame_rename hf) rfl rfl⟩
  | pathAnimation p frames =>
    exact ⟨h.1.rename hf rfl rfl, h.2.rename (pathKeyFrame_rename hf) rfl rfl⟩

theorem describesGeometry_rename (geometry : CanvasGeometry String)
    (h : DescribesGeometry ms geometry) :
    DescribesGeometry (renameMembers f (.ofGeometry (some (.string geometry.typeName))) ms)
      (geometry.map f) := by
  cases geometry with
  | combination a b matrix mode =>
    exact ⟨h.1.renameId hf rfl, h.2.1.renameId hf rfl, h.2.2.1.plain rfl, h.2.2.2.plain rfl⟩
  | ellipse x y radiusX radiusY =>
    exact ⟨h.1.plain rfl, h.2.1.plain rfl, h.2.2.1.plain rfl, h.2.2.2.plain rfl⟩
  | path region commands => exact ⟨h.1.plain rfl, h.2.plain rfl⟩
  | roundedRectangle x y w h' radiusX radiusY =>
    exact ⟨h.1.plain rfl, h.2.1.plain rfl, h.2.2.1.plain rfl, h.2.2.2.1.plain rfl,
      h.2.2.2.2.1.plain rfl, h.2.2.2.2.2.plain rfl⟩

theorem describesObject_rename (o : Object String) (h : DescribesObject ms o) :
    DescribesObject (renameMembers f (.ofRecord ms) ms) (o.map f) := by
  obtain ⟨htype, hcontent⟩ := h
  have hlookup : ms.lookup "type" = some (.string o.typeName) := by
    simpa [Required, Format.string] using htype
  cases o with
  | composition base variant =>
    have hpart : Part.ofRecord ms = .composition variant.typeName := by
      cases variant <;> simp [Part.ofRecord, hlookup, Object.typeName, Variant.typeName]
    have hplain : ∀ key ∈ ["type", "comment", "shortDescription", "longDescription"],
        (Part.composition variant.typeName).member key = .plain := by
      intro key hkey
      apply Part.member_composition
      revert key
      decide
    rw [hpart]
    refine ⟨?_, DescribesBase.rename hf hcontent.1 ?_ ?_ ?_,
      describesVariant_rename hf variant hcontent.2⟩
    · rw [Object.typeName_map]
      exact htype.plain (hplain _ (by simp))
    · cases variant <;> rfl
    · cases variant <;> rfl
    · exact fun key hkey => hplain key (List.mem_cons_of_mem _ hkey)
  | path description source =>
    have hpart : Part.ofRecord ms = .path := by
      simp [Part.ofRecord, hlookup, Object.typeName]
    rw [hpart]
    exact ⟨htype.plain rfl, hcontent.1.plain (by decide), hcontent.2.renameId hf rfl⟩
  | canvas description geometry =>
    obtain ⟨hdescription, hgeometryType, hgeometry⟩ := hcontent
    have hpart : Part.ofRecord ms = .ofGeometry (some (.string geometry.typeName)) := by
      have hname : ms.lookup "geometryType" = some (.string geometry.typeName) := by
        simpa [Required, Format.string] using hgeometryType
      simp [Part.ofRecord, hlookup, Object.typeName, hname]
    have hplain : ∀ key ∈ ["type", "geometryType", "comment", "shortDescription",
        "longDescription"],
        (Part.ofGeometry (some (.string geometry.typeName))).member key = .plain := by
      cases geometry <;> rw [CanvasGeometry.typeName] <;> decide
    rw [hpart]
    refine ⟨htype.plain (hplain _ (by simp)), hdescription.plain ?_, ?_,
      describesGeometry_rename hf geometry hgeometry⟩
    · exact fun key hkey => hplain key (List.mem_cons_of_mem _ (List.mem_cons_of_mem _ hkey))
    · cases geometry <;> exact hgeometryType.plain (hplain _ (by simp))

end Records

/-! ## Documents -/

def Json.renameRecord (f : String → String) : Json → Json
  | .object ms => .object (renameMembers f (.ofRecord ms) ms)
  | j => j

def Json.renameObjects (f : String → String) : Json → Json
  | .object entries => .object (entries.map fun e => (f e.1, e.2.renameRecord f))
  | j => j

def Json.renameMember (f : String → String) (key : String) (j : Json) : Json :=
  if key = "root" then j.rename f .id
  else if key = "objects" then j.renameObjects f
  else j

/-- Renames the ids of a document: its root, the keys of its objects, and every mention. -/
def Json.renameDocument (f : String → String) : Json → Json
  | .object ms => .object (ms.map fun m => (m.1, m.2.renameMember f m.1))
  | j => j

theorem record_rename {f : String → String} (hf : ∀ id, id ≠ "" → f id ≠ "") {j : Json}
    {o : Object String} (h : Format.record j o) : Format.record (j.renameRecord f) (o.map f) := by
  obtain ⟨ms, rfl, ho⟩ := h
  exact ⟨_, rfl, describesObject_rename hf o ho⟩

end SceneCompiler
