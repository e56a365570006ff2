import SceneCompiler.Proofs.Naming.Segments

/-!
# Names that differ

A name is made of segments between underscores.  Before ordinals it has one of them, a word; or two,
where another word comes first; or four.  An ordinal adds one segment.  So a name with an ordinal is
never one without, and an ordinal can be told from the name that it was added to.
-/

namespace SceneCompiler

/-- The form of a name: `[A-Z][A-Za-z0-9_]*`. -/
def IsName (name : String) : Prop :=
  ∃ c rest, name.toList = c :: rest ∧ c.isUpper = true ∧
    ∀ d ∈ rest, d.isAlphanum = true ∨ d = '_'

theorem isName_of_segment {w : String} (h : IsSegment w.toList)
    (hupper : (w.toList.headD 'a').isUpper = true) : IsName w := by
  cases hw : w.toList with
  | nil => exact absurd hw h.1
  | cons c rest =>
    rw [hw] at h hupper
    exact ⟨c, rest, hw, hupper, fun d hd => .inl (h.2 d (List.mem_cons_of_mem c hd))⟩

theorem IsName.add {name segment : String} (h : IsName name) (hsegment : IsSegment segment.toList) :
    IsName (name ++ "_" ++ segment) := by
  obtain ⟨c, rest, hname, hc, hrest⟩ := h
  refine ⟨c, rest ++ '_' :: segment.toList, by simp [hname], hc, ?_⟩
  simp only [List.mem_append, List.mem_cons]
  rintro d (hd | rfl | hd)
  · exact hrest d hd
  · exact .inr rfl
  · exact .inl (hsegment.2 d hd)

def FrameValue.constant? {α : Type} : FrameValue α → Option α
  | .value v => some v
  | .expression _ => none

def Object.colors {ρ : Type} : Object ρ → List Color
  | .composition _ (.colorBrush color) => [color]
  | .composition _ (.colorAnimation _ frames) =>
    frames.keyFrames.filterMap fun frame => frame.value.constant?
  | _ => []

namespace Naming

def parts (name : String) : List (List Char) :=
  name.toList.splitOn '_'

theorem eq_of_parts {a b : String} (h : parts a = parts b) : a = b := by
  have htext := congrArg ['_'].intercalate h
  rwa [parts, parts, List.intercalate_splitOn, List.intercalate_splitOn, String.toList_inj] at htext

theorem parts_segment {segment : String} (h : IsSegment segment.toList) :
    parts segment = [segment.toList] :=
  List.splitOn_eq_singleton fun hmem => absurd (h.2 _ hmem) (by decide)

theorem parts_add (name : String) {segment : String} (h : IsSegment segment.toList) :
    parts (name ++ "_" ++ segment) = parts name ++ [segment.toList] := by
  rw [← parts_segment h, parts, String.toList_append, String.toList_append, List.append_assoc]
  exact List.splitOn_append_cons_self _ _

def words : List String :=
  ["ColorAnimation", "ScalarAnimation", "Vector2Animation", "Vector3KeyFrameAnimation",
   "PathKeyFrameAnimation", "ExpressionAnimation", "AnimatedColorBrush", "ContainerVisual",
   "ShapeVisual", "InsetClip", "ViewBox", "ContainerShape", "SpriteShape", "PathGeometry",
   "LinearEasingFunction", "CubicBezierEasingFunction", "StepEasingFunction", "CompositionPath",
   "Geometry"]

def describedWords : List String :=
  ["ColorBrush", "Rectangle", "RoundedRectangle", "Ellipse"]

inductive IsBase : String → Prop
  | word {w : String} (hw : w ∈ words) : IsBase w
  | described {w s : String} (hw : w ∈ describedWords) (hs : IsSegment s.toList) :
      IsBase (w ++ "_" ++ s)
  | ranged {w a b : String} (hw : w ∈ words) (ha : IsSegment a.toList) (hb : IsSegment b.toList) :
      IsBase (w ++ "_" ++ a ++ "_" ++ "to" ++ "_" ++ b)

theorem word_spec {w : String} (h : w ∈ words ++ describedWords) :
    IsSegment w.toList ∧ IsName w := by
  have hletters : ∀ w ∈ words ++ describedWords,
      IsSegment w.toList ∧ (w.toList.headD 'a').isUpper = true := by decide +kernel
  obtain ⟨hsegment, hupper⟩ := hletters w h
  exact ⟨hsegment, isName_of_segment hsegment hupper⟩

theorem isSegment_to : IsSegment "to".toList := by
  decide

theorem IsBase.isName {name : String} (h : IsBase name) : IsName name := by
  cases h with
  | word hw => exact (word_spec (List.mem_append_left _ hw)).2
  | described hw hs => exact (word_spec (List.mem_append_right _ hw)).2.add hs
  | ranged hw ha hb =>
    exact (((word_spec (List.mem_append_left _ hw)).2.add ha).add isSegment_to).add hb

theorem IsBase.parts_cases {name : String} (h : IsBase name) :
    (∃ w ∈ words, parts name = [w.toList]) ∨
      (∃ w ∈ describedWords, ∃ s, parts name = [w.toList, s]) ∨
      ∃ w ∈ words, ∃ a b, parts name = [w.toList, a, "to".toList, b] := by
  cases h with
  | word hw =>
    exact .inl ⟨_, hw, parts_segment (word_spec (List.mem_append_left _ hw)).1⟩
  | @described w s hw hs =>
    refine .inr (.inl ⟨w, hw, s.toList, ?_⟩)
    rw [parts_add w hs, parts_segment (word_spec (List.mem_append_right _ hw)).1]
    rfl
  | @ranged w a b hw ha hb =>
    refine .inr (.inr ⟨w, hw, a.toList, b.toList, ?_⟩)
    rw [parts_add _ hb, parts_add _ isSegment_to, parts_add w ha,
      parts_segment (word_spec (List.mem_append_left _ hw)).1]
    rfl

theorem IsBase.exists_head {name : String} (h : IsBase name) :
    ∃ w ∈ words ++ describedWords, ∃ rest, parts name = w.toList :: rest := by
  rcases h.parts_cases with ⟨w, hw, h⟩ | ⟨w, hw, s, h⟩ | ⟨w, hw, s, t, h⟩
  · exact ⟨w, List.mem_append_left _ hw, _, h⟩
  · exact ⟨w, List.mem_append_right _ hw, _, h⟩
  · exact ⟨w, List.mem_append_left _ hw, _, h⟩

theorem IsBase.ne_add {a b segment : String} (ha : IsBase a) (hb : IsBase b)
    (hsegment : IsSegment segment.toList) : a ≠ b ++ "_" ++ segment := by
  intro heq
  have hparts := congrArg parts heq
  rw [parts_add b hsegment] at hparts
  rcases ha.parts_cases with ⟨v, hv, ha⟩ | ⟨v, hv, s, ha⟩ | ⟨v, hv, s, t, ha⟩ <;>
    rcases hb.parts_cases with ⟨w, hw, hb⟩ | ⟨w, hw, s', hb⟩ | ⟨w, hw, s', t', hb⟩ <;>
    simp [ha, hb] at hparts
  -- what is left is a description after a word that has none
  obtain rfl := String.toList_inj.mp hparts.1
  have hdisjoint : ∀ w ∈ words, w ∉ describedWords := by decide
  exact hdisjoint v hw hv

/-! ## Objects -/

section BaseName

variable {ρ α : Type}

theorem mem_of_range? {frames : List (KeyFrame ρ α)} {a b : α} (h : range? frames = some (a, b)) :
    a ∈ frames.filterMap (fun frame => frame.value.constant?) ∧
      b ∈ frames.filterMap (fun frame => frame.value.constant?) := by
  unfold range? at h
  split at h
  · rename_i first last hfirst hlast
    split at h
    · rename_i hvalue hvalue'
      cases h
      simp only [List.mem_filterMap]
      exact ⟨⟨first, List.mem_of_head? hfirst, by rw [hvalue]; rfl⟩,
        ⟨last, List.mem_of_getLast? hlast, by rw [hvalue']; rfl⟩⟩
    · cases h
  · cases h

theorem isBase_withRange {w : String} (hw : w ∈ words) {describe : α → String}
    {range : Option (α × α)} (h : ∀ a b, range = some (a, b) →
      IsSegment (describe a).toList ∧ IsSegment (describe b).toList) :
    IsBase (withRange w describe range) := by
  cases range with
  | none => exact .word hw
  | some ends =>
    obtain ⟨ha, hb⟩ := h ends.1 ends.2 rfl
    have hrange := IsBase.ranged hw ha hb
    have hto : "_to_" = "_" ++ ("to" ++ "_") := by decide
    simpa only [withRange, hto, String.append_assoc] using hrange

theorem isBase_baseName {look : ρ → Object ρ} {o : Object ρ}
    (ho : ∀ c ∈ o.colors, IsSegment c.name.toList)
    (hlook : ∀ i, ∀ c ∈ (look i).colors, IsSegment c.name.toList) : IsBase (baseName look o) := by
  have hshort : ∀ type ∈ ["ContainerVisual", "ShapeVisual", "InsetClip", "CompositionViewBox",
      "CompositionContainerShape", "CompositionSpriteShape", "CompositionPathGeometry",
      "LinearEasingFunction", "CubicBezierEasingFunction", "StepEasingFunction",
      "ExpressionAnimation", "Vector3KeyFrameAnimation", "PathKeyFrameAnimation"],
      shortType type ∈ words := by decide +kernel
  cases o with
  | path description source => exact .word (w := "CompositionPath") (by decide)
  | canvas description geometry => exact .word (w := "Geometry") (by decide)
  | composition base variant =>
    cases variant with
    | vector2Animation parameters frames => exact .word (w := "Vector2Animation") (by decide)
    | colorAnimation parameters frames =>
      refine isBase_withRange (by decide) fun a b hrange => ?_
      obtain ⟨ha, hb⟩ := mem_of_range? hrange
      exact ⟨ho a ha, ho b hb⟩
    | scalarAnimation parameters frames =>
      exact isBase_withRange (by decide) fun a b _ => ⟨a.isSegment_idText, b.isSegment_idText⟩
    | colorBrush color =>
      unfold baseName variantName
      dsimp only
      split
      · exact .described (w := "ColorBrush") (by decide) (ho color List.mem_cons_self)
      · refine isBase_withRange (by decide) fun a b hrange => ?_
        obtain ⟨frames, hframes, hrange⟩ := Option.bind_eq_some_iff.mp hrange
        obtain ⟨animator, _, hanimator⟩ := List.exists_of_findSome?_eq_some hframes
        obtain ⟨ha, hb⟩ := mem_of_range? hrange
        have hcolors : (look animator.animation).colors =
            frames.filterMap fun frame => frame.value.constant? := by
          unfold colorFrames? at hanimator
          split at hanimator
          · rename_i hlook
            cases hanimator
            rw [hlook, Object.colors]
          · cases hanimator
        exact ⟨hlook _ a (hcolors ▸ ha), hlook _ b (hcolors ▸ hb)⟩
    | rectangleGeometry trim size =>
      exact .described (w := "Rectangle") (by decide) size.isSegment_idText
    | roundedRectangleGeometry trim size radius =>
      exact .described (w := "RoundedRectangle") (by decide) size.isSegment_idText
    | ellipseGeometry trim center radius =>
      exact .described (w := "Ellipse") (by decide) radius.isSegment_idText
    | _ => exact .word (hshort _ (by simp [Variant.typeName]))

end BaseName

/-! ## Ordinals -/

theorem isSegment_ordinal (k : Nat) : IsSegment (ordinal k).toList := by
  rw [ordinal, String.toList_ofList]
  exact ⟨by simp [Nat.toDigits_ne_nil],
    (areDigits_append.mpr ⟨areDigits_zeros _, areDigits_toDigits k⟩).isAlphanum⟩

theorem ordinal_inj {j k : Nat} (h : ordinal j = ordinal k) : j = k := by
  have hvalue (k : Nat) : Nat.ofDigitChars 10 (ordinal k).toList 0 = k := by
    simp [ordinal, zeros, Nat.ofDigitChars_append]
  rw [← hvalue j, h, hvalue]

/-- The name made from one that occurs in a list, where `k` others like it came before. -/
def tagged (all : List String) (name : String) (k : Nat) : String :=
  if all.count name = 1 then name else name ++ "_" ++ ordinal k

theorem addOrdinals_cons (all before : List String) (name : String) (rest : List String) :
    addOrdinals all before (name :: rest) =
      tagged all name (before.count name) :: addOrdinals all (name :: before) rest :=
  rfl

theorem tagged_inj {all : List String} {a b : String} {j k : Nat} (ha : IsBase a) (hb : IsBase b)
    (h : tagged all a j = tagged all b k) : a = b ∧ (all.count a ≠ 1 → j = k) := by
  unfold tagged at h
  split at h <;> split at h
  · exact ⟨h, fun hcount => absurd ‹_› hcount⟩
  · exact absurd h (ha.ne_add hb (isSegment_ordinal k))
  · exact absurd h.symm (hb.ne_add ha (isSegment_ordinal j))
  · have hparts := congrArg parts h
    rw [parts_add a (isSegment_ordinal j), parts_add b (isSegment_ordinal k)] at hparts
    have hlast : [(ordinal j).toList].length = [(ordinal k).toList].length := by simp
    obtain ⟨hname, hordinal⟩ := List.append_inj' hparts hlast
    have heq : ordinal j = ordinal k := String.toList_inj.mp (List.singleton_inj.mp hordinal)
    exact ⟨eq_of_parts hname, fun _ => ordinal_inj heq⟩

theorem IsBase.tagged_ne {name : String} (h : IsBase name) (all : List String) (k : Nat)
    {segment : String} (hsegment : IsSegment segment.toList)
    (hnot : segment ∉ words ++ describedWords) : tagged all name k ≠ segment := by
  intro heq
  have hparts := congrArg parts heq
  have hhead : ∃ w ∈ words ++ describedWords,
      ∃ rest, parts (tagged all name k) = w.toList :: rest := by
    unfold tagged
    split
    · exact h.exists_head
    · obtain ⟨w, hw, rest, hrest⟩ := h.exists_head
      refine ⟨w, hw, rest ++ [(ordinal k).toList], ?_⟩
      rw [parts_add _ (isSegment_ordinal k), hrest]
      rfl
  obtain ⟨w, hw, rest, hrest⟩ := hhead
  rw [hrest, parts_segment hsegment, List.cons.injEq, String.toList_inj] at hparts
  exact hnot (hparts.1 ▸ hw)

theorem IsBase.isName_tagged {name : String} (h : IsBase name) (all : List String) (k : Nat) :
    IsName (tagged all name k) := by
  unfold tagged
  split
  · exact h.isName
  · exact h.isName.add (isSegment_ordinal k)

theorem exists_of_mem_addOrdinals {all before rest : List String} {name : String}
    (h : name ∈ addOrdinals all before rest) :
    ∃ base ∈ rest, ∃ k, before.count base ≤ k ∧ name = tagged all base k := by
  induction rest generalizing before with
  | nil => cases h
  | cons first rest ih =>
    rw [addOrdinals_cons, List.mem_cons] at h
    rcases h with rfl | h
    · exact ⟨first, List.mem_cons_self, _, Nat.le_refl _, rfl⟩
    · obtain ⟨base, hbase, k, hk, rfl⟩ := ih h
      refine ⟨base, List.mem_cons_of_mem first hbase, k, ?_, rfl⟩
      exact Nat.le_trans (List.count_le_count_cons) hk

theorem nodup_addOrdinals {all before rest : List String} (hbase : ∀ name ∈ rest, IsBase name)
    (hcount : ∀ name, all.count name = before.count name + rest.count name) :
    (addOrdinals all before rest).Nodup := by
  induction rest generalizing before with
  | nil => exact List.nodup_nil
  | cons first rest ih =>
    rw [addOrdinals_cons, List.nodup_cons]
    refine ⟨fun hmem => ?_, ih (fun name h => hbase name (List.mem_cons_of_mem first h)) ?_⟩
    · obtain ⟨base, hrest, k, hk, heq⟩ := exists_of_mem_addOrdinals hmem
      obtain ⟨rfl, hordinal⟩ := tagged_inj (hbase first List.mem_cons_self)
        (hbase base (List.mem_cons_of_mem first hrest)) heq
      -- the name occurs again, and its ordinal has grown
      have hagain := List.count_pos_iff.mpr hrest
      have hall := hcount first
      rw [List.count_cons_self] at hall hk
      have := hordinal (by omega)
      omega
    · intro name
      rw [hcount name, List.count_cons, List.count_cons]
      omega

theorem length_addOrdinals (all before rest : List String) :
    (addOrdinals all before rest).length = rest.length := by
  induction rest generalizing before with
  | nil => rfl
  | cons first rest ih => rw [addOrdinals_cons, List.length_cons, List.length_cons, ih]

end Naming

end SceneCompiler
