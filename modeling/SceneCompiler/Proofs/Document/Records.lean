import SceneCompiler.Proofs.Document.Readers

/-!
# Reading records

What the reader of a record gives is what the format says of its members.
-/

namespace SceneCompiler

open Members

theorem lookup_map_entry {α β : Type} {f : String → String} (g : String → α → β)
    {entries : List (String × α)} {key : String}
    (hf : ∀ e ∈ entries, f e.1 = f key → e.1 = key) :
    (entries.map fun e => (f e.1, g e.1 e.2)).lookup (f key) = (entries.lookup key).map (g key) := by
  induction entries with
  | nil => rfl
  | cons e entries ih =>
    have hkey : (f key == f e.1) = (key == e.1) := by
      rw [Bool.eq_iff_iff, beq_iff_eq, beq_iff_eq]
      exact ⟨fun h => (hf e List.mem_cons_self h.symm).symm, congrArg f⟩
    rw [List.map_cons, List.lookup_cons, List.lookup_cons, hkey,
      ih fun e he => hf e (List.mem_cons_of_mem _ he)]
    cases heq : key == e.1 with
    | false => rfl
    | true => rw [eq_of_beq heq, Option.map_some]

theorem lookup_map_snd {α β : Type} (g : α → β) (entries : List (String × α)) (key : String) :
    (entries.map fun e => (e.1, g e.2)).lookup key = (entries.lookup key).map g :=
  lookup_map_entry (f := id) (fun _ => g) fun _ _ h => h

namespace Color

theorem hexDigit?_eq_some {u d : Nat} (h : hexDigit? u = some d) :
    (0x30 ≤ u ∧ u ≤ 0x39 ∨ 0x41 ≤ u ∧ u ≤ 0x46 ∨ 0x61 ≤ u ∧ u ≤ 0x66) := by
  simp only [hexDigit?] at h
  grind

theorem takeSign_of_ne {u : Nat} {rest : List Nat} (hplus : u ≠ 0x2B) (hminus : u ≠ 0x2D) :
    takeSign (u :: rest) = (false, u :: rest) := by
  unfold takeSign
  split <;> simp_all

theorem dropMark_of_ne {u v : Nat} (hlower : v ≠ 0x78) (hupper : v ≠ 0x58) :
    dropMark [u, v] = [u, v] := by
  unfold dropMark
  split <;> simp_all

theorem readHex_pair {c d : Char} {high low : Nat} (hc : hexDigit? c.toNat = some high)
    (hd : hexDigit? d.toNat = some low) :
    readHex [c.toNat, d.toNat] = Number.ofNat (16 * high + low) := by
  have hc' := hexDigit?_eq_some hc
  have hd' := hexDigit?_eq_some hd
  have hblank : isBlankUnit c.toNat = false := by
    simp only [isBlankUnit, Text.isBlankChar, Char.ofNat_toNat, Bool.or_eq_false_iff,
      Bool.and_eq_false_iff, beq_eq_false_iff_ne, decide_eq_false_iff_not]
    omega
  have hdrop : [c.toNat, d.toNat].dropWhile isBlankUnit = [c.toNat, d.toNat] := by simp [hblank]
  have hsign : takeSign [c.toNat, d.toNat] = (false, [c.toNat, d.toNat]) :=
    takeSign_of_ne (by omega) (by omega)
  have hmark : dropMark [c.toNat, d.toNat] = [c.toNat, d.toNat] :=
    dropMark_of_ne (by omega) (by omega)
  simp [readHex, hdrop, hsign, hmark, hc, hd, Number.ofNat]

theorem units_digits {digits : List Char}
    (h : ∀ c ∈ digits, ∃ n, hexDigit? c.toNat = some n) :
    digits.flatMap Text.charUnits = digits.map Char.toNat := by
  induction digits with
  | nil => rfl
  | cons c rest ih =>
    obtain ⟨n, hn⟩ := h c List.mem_cons_self
    have hrange := hexDigit?_eq_some hn
    have hunit : Text.charUnits c = [c.toNat] := if_pos (by omega)
    simp [hunit, ih fun d hd => h d (List.mem_cons_of_mem _ hd)]

end Color

namespace Format

theorem channel_iff {high low : Char} (h : ∀ c ∈ [high, low], ∃ n, Color.hexDigit? c.toNat = some n)
    {n : Number} : channel high low n ↔ n = Color.readHex [high.toNat, low.toNat] := by
  obtain ⟨a, ha⟩ := h high (by simp)
  obtain ⟨b, hb⟩ := h low (by simp)
  rw [Color.readHex_pair ha hb]
  simp [channel, ha, hb]

theorem exists_digit_of_channel {high low : Char} {n : Number} (h : channel high low n) :
    ∀ c ∈ [high, low], ∃ n, Color.hexDigit? c.toNat = some n := by
  obtain ⟨a, b, ha, hb, _⟩ := h
  simp [ha, hb]

end Format

namespace Record

variable {path : KeyPath} {j : Json} {f : Fields}

@[simp high] theorem gives_text {message : String} {s : String} :
    (Reader.check (fun s => !s.isEmpty) message Reader.string path j).Gives s ↔
      Format.text j s := by
  simp only [Reader.gives_check, Reader.gives_string, Format.text, Format.checked]

@[simp] theorem gives_id (path : KeyPath) (j : Json) (s : String) :
    (id path j).Gives s ↔ Format.id j s :=
  gives_text

@[simp] theorem gives_ids {ss : List String} :
    (ids path j).Gives ss ↔ Format.list Format.id j ss :=
  Reader.gives_list gives_id

@[simp] theorem gives_vector2 (path : KeyPath) (j : Json) (v : Vector2) :
    (vector2 path j).Gives v ↔ Format.vector2 j v := by
  cases v
  simp [vector2, Format.vector2, Format.object]

@[simp] theorem gives_vector3 (path : KeyPath) (j : Json) (v : Vector3) :
    (vector3 path j).Gives v ↔ Format.vector3 j v := by
  cases v
  simp [vector3, Format.vector3, Format.object]

@[simp] theorem gives_matrix3x2 {m : Matrix3x2} :
    (matrix3x2 path j).Gives m ↔ Format.matrix3x2 j m := by
  cases m
  simp [matrix3x2, Format.matrix3x2, Format.object, and_assoc]

/-! ## Colors -/

theorem exists_digits {digits : List Char} (h : digits.length = 8) :
    ∃ a₁ a₂ r₁ r₂ g₁ g₂ b₁ b₂, digits = [a₁, a₂, r₁, r₂, g₁, g₂, b₁, b₂] := by
  rcases digits with _ | ⟨a₁, _ | ⟨a₂, _ | ⟨r₁, _ | ⟨r₂, _ | ⟨g₁, _ | ⟨g₂, _ | ⟨b₁, _ | ⟨b₂,
    _ | ⟨c, rest⟩⟩⟩⟩⟩⟩⟩⟩⟩ <;> simp at h ⊢

theorem isColor_iff {text : String} :
    isColor text = true ↔ ∃ a₁ a₂ r₁ r₂ g₁ g₂ b₁ b₂,
      text = String.ofList ['#', a₁, a₂, r₁, r₂, g₁, g₂, b₁, b₂] ∧
        ∀ c ∈ [a₁, a₂, r₁, r₂, g₁, g₂, b₁, b₂], ∃ n, Color.hexDigit? c.toNat = some n := by
  constructor
  · intro h
    simp only [isColor] at h
    split at h
    next digits htext =>
      simp only [Bool.and_eq_true, beq_iff_eq, List.all_eq_true, Option.isSome_iff_exists] at h
      obtain ⟨a₁, a₂, r₁, r₂, g₁, g₂, b₁, b₂, rfl⟩ := exists_digits h.1
      exact ⟨a₁, a₂, r₁, r₂, g₁, g₂, b₁, b₂, by simp [← htext], h.2⟩
    next => cases h
  · rintro ⟨a₁, a₂, r₁, r₂, g₁, g₂, b₁, b₂, rfl, hdigits⟩
    simpa [isColor, Option.isSome_iff_exists] using hdigits

theorem ofText_eq_iff {a₁ a₂ r₁ r₂ g₁ g₂ b₁ b₂ : Char}
    (h : ∀ c ∈ [a₁, a₂, r₁, r₂, g₁, g₂, b₁, b₂], ∃ n, Color.hexDigit? c.toNat = some n)
    {c : Color} : Color.ofText (String.ofList ['#', a₁, a₂, r₁, r₂, g₁, g₂, b₁, b₂]) = c ↔
      Format.channel a₁ a₂ c.a ∧ Format.channel r₁ r₂ c.r ∧ Format.channel g₁ g₂ c.g ∧
        Format.channel b₁ b₂ c.b := by
  have hunits : Text.units (String.ofList ['#', a₁, a₂, r₁, r₂, g₁, g₂, b₁, b₂]) =
      0x23 :: [a₁, a₂, r₁, r₂, g₁, g₂, b₁, b₂].map Char.toNat := by
    rw [Text.units, String.toList_ofList, List.flatMap_cons, Color.units_digits h]
    rfl
  have hpair (high low : Char)
      (hsub : [high, low] ⊆ [a₁, a₂, r₁, r₂, g₁, g₂, b₁, b₂]) (n : Number) :
      Format.channel high low n ↔ n = Color.readHex [high.toNat, low.toNat] :=
    Format.channel_iff fun c hc => h c (hsub hc)
  rw [hpair a₁ a₂ (by simp), hpair r₁ r₂ (by simp), hpair g₁ g₂ (by simp), hpair b₁ b₂ (by simp)]
  cases c
  rw [Color.ofText, hunits]
  simp [Color.ofParts, eq_comm]

@[simp] theorem gives_color (path : KeyPath) (j : Json) (c : Color) :
    (color path j).Gives c ↔ Format.color j c := by
  simp only [color, Reading.gives_map, Reader.gives_check, Reader.gives_string, Format.string,
    isColor_iff, Format.color]
  constructor
  · rintro ⟨_, ⟨rfl, a₁, a₂, r₁, r₂, g₁, g₂, b₁, b₂, rfl, hdigits⟩, hc⟩
    exact ⟨a₁, a₂, r₁, r₂, g₁, g₂, b₁, b₂, rfl, (ofText_eq_iff hdigits).mp hc⟩
  · rintro ⟨a₁, a₂, r₁, r₂, g₁, g₂, b₁, b₂, rfl, hchannels⟩
    have hdigits : ∀ c ∈ [a₁, a₂, r₁, r₂, g₁, g₂, b₁, b₂], ∃ n,
        Color.hexDigit? c.toNat = some n := by
      obtain ⟨ha, hr, hg, hb⟩ := hchannels
      have hpairs := List.forall_mem_append.mpr ⟨Format.exists_digit_of_channel ha,
        List.forall_mem_append.mpr ⟨Format.exists_digit_of_channel hr,
          List.forall_mem_append.mpr ⟨Format.exists_digit_of_channel hg,
            Format.exists_digit_of_channel hb⟩⟩⟩
      exact hpairs
    exact ⟨_, ⟨rfl, a₁, a₂, r₁, r₂, g₁, g₂, b₁, b₂, rfl, hdigits⟩,
      (ofText_eq_iff hdigits).mpr hchannels⟩

@[simp] theorem gives_nonnegative {n : Number} :
    (nonnegative path j).Gives n ↔ Format.nonnegative j n := by
  simp [nonnegative, Format.nonnegative, Format.checked]

@[simp] theorem gives_positive {n : Number} :
    (positive path j).Gives n ↔ Format.positive j n := by
  simp [positive, Format.positive, Format.checked]

@[simp] theorem gives_integer {n : Number} : (integer path j).Gives n ↔ Format.integer j n := by
  simp [integer, Format.integer, Format.checked]

@[simp] theorem gives_progress {n : Number} :
    (progress path j).Gives n ↔ Format.progress j n := by
  simp [progress, Format.progress, Format.checked, and_assoc]

/-! ## Animators -/

@[simp] theorem gives_numberList {ns : List Number} :
    (Reader.list Reader.number path j).Gives ns ↔ Format.list Format.number j ns :=
  Reader.gives_list Reader.gives_number

@[simp] theorem gives_numbers {entries : List (String × Number)} :
    (Reader.map Reader.number path j).Gives entries ↔ Format.map Format.number j entries :=
  Reader.gives_map Reader.gives_number

@[simp] theorem gives_vectors {entries : List (String × Vector2)} :
    (Reader.map vector2 path j).Gives entries ↔ Format.map Format.vector2 j entries :=
  Reader.gives_map gives_vector2

@[simp] theorem gives_description {d : Description} :
    (description f).Gives d ↔ DescribesDescription f.members d := by
  cases d
  simp [description, describesDescription_iff]

@[simp] theorem gives_visual {v : Visual String} :
    (visual f).Gives v ↔ DescribesVisual f.members v := by
  cases v
  simp [visual, describesVisual_iff, and_assoc]

@[simp] theorem gives_insetClip {c : InsetClip} :
    (insetClip f).Gives c ↔ DescribesInsetClip f.members c := by
  cases c
  simp [insetClip, describesInsetClip_iff, and_assoc]

@[simp] theorem gives_placement {p : Placement} :
    (placement f).Gives p ↔ DescribesPlacement f.members p := by
  cases p
  simp [placement, describesPlacement_iff, and_assoc]

@[simp] theorem gives_sprite {s : Sprite String} :
    (sprite f).Gives s ↔ DescribesSprite f.members s := by
  cases s
  simp only [sprite, describesSprite_iff, Reading.gives_seq, Reading.gives_map,
    Fields.gives_optional, Fields.gives_withDefault, gives_id, Reader.gives_bool,
    Reader.gives_named, Reader.gives_number, gives_numberList, exists_exists_and_eq_and,
    exists_exists_and_exists_and_eq_and, ↓existsAndEq, and_true, and_assoc, exists_and_left,
    Sprite.mk.injEq]

@[simp] theorem gives_trim {t : Trim} : (trim f).Gives t ↔ DescribesTrim f.members t := by
  cases t
  simp [trim, describesTrim_iff]

@[simp] theorem gives_stepEasing {e : StepEasing} :
    (stepEasing f).Gives e ↔ DescribesStepEasing f.members e := by
  cases e
  simp [stepEasing, describesStepEasing_iff, and_assoc, -Bool.exists_bool]

@[simp] theorem gives_references {entries : List (String × String)} :
    (Reader.map id path j).Gives entries ↔ Format.map Format.id j entries :=
  Reader.gives_map gives_id

@[simp] theorem gives_parameters {p : Parameters String} :
    (parameters f).Gives p ↔ DescribesParameters f.members p := by
  cases p
  simp [parameters, describesParameters_iff]

theorem gives_frameParts {α : Type} {value : Reader α} {F : Format α}
    (h : ∀ path j a, (value path j).Gives a ↔ F j a) {p : Number} {v : Option α}
    {e : Option String} {r : String} :
    (frameParts value path j).Gives (p, v, e, r) ↔ ∃ ms, j = .object ms ∧
      Required ms "progress" Format.progress p ∧ Optional ms "value" F v ∧
        Optional ms "expression" Format.string e ∧ Required ms "easing" Format.id r := by
  simp [frameParts, h, and_assoc]

theorem gives_keyFrame {α : Type} {value : Reader α} {F : Format α}
    (h : ∀ path j a, (value path j).Gives a ↔ F j a) (path : KeyPath) (j : Json)
    (frame : KeyFrame String α) :
    (keyFrame value path j).Gives frame ↔ Format.keyFrame F j frame := by
  rcases frame with ⟨progress, content, easing⟩
  simp only [keyFrame, Format.keyFrame, Format.object, Reading.gives_andThen]
  constructor
  · rintro ⟨⟨p, v, e, r⟩, hparts, hframe⟩
    obtain ⟨ms, rfl, hp, hv, he, hr⟩ := (gives_frameParts h).mp hparts
    refine ⟨ms, rfl, ?_⟩
    cases v <;> cases e <;> simp at hframe <;> obtain ⟨rfl, rfl, rfl⟩ := hframe
    · exact ⟨hp, ⟨hv, he⟩, hr⟩
    · exact ⟨hp, ⟨hv, he⟩, hr⟩
  · rintro ⟨ms, rfl, hp, hv, hr⟩
    cases content with
    | value v =>
      refine ⟨(progress, some v, none, easing), ?_, by simp⟩
      exact (gives_frameParts h).mpr ⟨ms, rfl, hp, hv.1, hv.2, hr⟩
    | expression text =>
      refine ⟨(progress, none, some text, easing), ?_, by simp⟩
      exact (gives_frameParts h).mpr ⟨ms, rfl, hp, hv.1, hv.2, hr⟩

theorem gives_pathKeyFrame (path : KeyPath) (j : Json) (frame : KeyFrame String String) :
    (pathKeyFrame path j).Gives frame ↔ Format.pathKeyFrame j frame := by
  rcases frame with ⟨progress, content, easing⟩
  simp only [pathKeyFrame, Format.pathKeyFrame, Format.object]
  cases content <;> simp

theorem gives_frames {α : Type} {frame : Reader (KeyFrame String α)}
    {F : Format (KeyFrame String α)} (h : ∀ path j a, (frame path j).Gives a ↔ F j a)
    {k : Frames String α} :
    (Record.frames frame f).Gives k ↔ DescribesFrames F f.members k := by
  cases k
  simp [Record.frames, describesFrames_iff, Reader.gives_list h]

/-! ## Animators -/

theorem depth_lt_of_lookup {ms : Members} {key : String} {j : Json} (h : ms.lookup key = some j) :
    j.depth < (Json.object ms).depth := by
  induction ms with
  | nil => cases h
  | cons m rest ih =>
    rcases m with ⟨k, value⟩
    rw [List.lookup_cons] at h
    simp only [Json.depth, depthOfMembers] at ih ⊢
    split at h
    · cases h
      omega
    · have := ih h
      omega

theorem exists_lookup_iff {α : Type} {ms : Members} {key : String} {shape : α → Json}
    {P : Json → Prop} {Q : α → Prop}
    (h : ∀ j, ms.lookup key = some j → (P j ↔ ∃ a, j = shape a ∧ Q a)) :
    (∃ j, ms.lookup key = some j ∧ P j) ↔ ∃ a, ms.lookup key = some (shape a) ∧ Q a := by
  constructor
  · rintro ⟨j, hj, hP⟩
    obtain ⟨a, rfl, hQ⟩ := (h j hj).mp hP
    exact ⟨a, hj, hQ⟩
  · rintro ⟨a, hj, hQ⟩
    exact ⟨_, hj, (h _ hj).mpr ⟨a, rfl, hQ⟩⟩

theorem depth_lt_of_mem {items : List Json} {j : Json} (h : j ∈ items) :
    j.depth < (Json.array items).depth := by
  induction items with
  | nil => cases h
  | cons item rest ih =>
    simp only [Json.depth, depthOfItems] at ih ⊢
    rcases List.mem_cons.mp h with rfl | h
    · omega
    · have := ih h
      omega

theorem areAnimators_iff {items : List Json} {as : List (Animator String)} :
    AreAnimators items as ↔ List.Forall₂ IsAnimator items as := by
  induction items generalizing as with
  | nil => cases as <;> simp [AreAnimators]
  | cons item rest ih => cases as <;> simp [AreAnimators, ih]

theorem animatorOf_eq_plain {p a property animation : String}
    {c : Option (PropertySet × List (Animator String))} :
    animatorOf p a c = .plain property animation ↔ p = property ∧ a = animation ∧ c = none := by
  rcases c with _ | ⟨⟨values, onProperties⟩, onController⟩ <;> simp [animatorOf]

theorem animatorOf_eq_controlled {p a property animation : String}
    {c : Option (PropertySet × List (Animator String))} {values : PropertyValues}
    {onProperties onController : List (Animator String)} :
    animatorOf p a c = .controlled property animation values onProperties onController ↔
      p = property ∧ a = animation ∧ c = some ((values, onProperties), onController) := by
  rcases c with _ | ⟨⟨values, onProperties⟩, onController⟩ <;> simp [animatorOf, and_assoc]

section Nested

def ReadsBelow (reader : Reader (List (Animator String))) (n : Nat) : Prop :=
  ∀ path j as, j.depth < n →
    ((reader path j).Gives as ↔ ∃ items, j = .array items ∧ AreAnimators items as)

variable {reader : Reader (List (Animator String))} {n : Nat} (h : ReadsBelow reader n)
  {values : PropertyValues} {as : List (Animator String)}
include h

theorem gives_items (hf : (Json.object f.members).depth ≤ n) :
    (f.withDefault "animators" [] reader).Gives as ↔
      Items f.members "animators" as fun items => AreAnimators items as := by
  have hmember {j : Json} (hj : f.members.lookup "animators" = some j) : j.depth < n :=
    Nat.lt_of_lt_of_le (depth_lt_of_lookup hj) hf
  simp only [Fields.gives_withDefault, Defaulted, Required, Items]
  exact or_congr (exists_lookup_iff fun j hj => h _ j as (hmember hj)) Iff.rfl

theorem gives_propertySetWith (hj : j.depth ≤ n) :
    (propertySetWith reader path j).Gives (values, as) ↔ ∃ ps, j = .object ps ∧
      DescribesValues ps values ∧ Items ps "animators" as fun items => AreAnimators items as := by
  simp only [propertySetWith, Reader.gives_object]
  refine exists_congr fun ps => and_congr_right ?_
  rintro rfl
  cases values
  simp only [Reading.gives_seq, Reading.gives_map, gives_items h (f := ⟨path, ps⟩) hj]
  simp [DescribesValues, and_assoc]

theorem gives_properties (hf : (Json.object f.members).depth ≤ n) :
    (f.withDefault "properties" ({}, []) (propertySetWith reader)).Gives (values, as) ↔
      Members.PropertySet f.members values as fun items => AreAnimators items as := by
  have hmember {j : Json} (hj : f.members.lookup "properties" = some j) : j.depth ≤ n :=
    Nat.le_trans (Nat.le_of_lt (depth_lt_of_lookup hj)) hf
  simp only [Fields.gives_withDefault, Defaulted, Required, Members.PropertySet, Prod.mk.injEq]
  exact or_congr (exists_lookup_iff fun j hj => gives_propertySetWith h (hmember hj)) Iff.rfl

theorem gives_controllerWith (hj : j.depth ≤ n) {bs : List (Animator String)} :
    (controllerWith reader path j).Gives ((values, as), bs) ↔ ∃ cs, j = .object cs ∧
      Members.PropertySet cs values as (fun items => AreAnimators items as) ∧
        Items cs "animators" bs fun items => AreAnimators items bs := by
  simp only [controllerWith, Reader.gives_object]
  refine exists_congr fun cs => and_congr_right ?_
  rintro rfl
  simp only [Reading.gives_seq, Reading.gives_map, gives_items h (f := ⟨path, cs⟩) hj]
  constructor
  · rintro ⟨_, ⟨⟨v, bs⟩, hproperties, rfl⟩, cs, hitems, heq⟩
    cases heq
    exact ⟨(gives_properties h (f := ⟨path, _⟩) hj).mp hproperties, hitems⟩
  · rintro ⟨hproperties, hitems⟩
    exact ⟨_, ⟨_, (gives_properties h (f := ⟨path, _⟩) hj).mpr hproperties, rfl⟩, _, hitems, rfl⟩

theorem gives_controller {c : PropertySet × List (Animator String)}
    (hf : (Json.object f.members).depth ≤ n) :
    (f.optional "controller" (controllerWith reader)).Gives (some c) ↔
      ∃ cs, f.members.lookup "controller" = some (.object cs) ∧
        Members.PropertySet cs c.1.1 c.1.2 (fun items => AreAnimators items c.1.2) ∧
          Items cs "animators" c.2 fun items => AreAnimators items c.2 := by
  have hmember {j : Json} (hj : f.members.lookup "controller" = some j) : j.depth ≤ n :=
    Nat.le_trans (Nat.le_of_lt (depth_lt_of_lookup hj)) hf
  simp only [Fields.gives_optional, Optional, Required]
  exact exists_lookup_iff fun j hj => gives_controllerWith h (hmember hj)

theorem gives_animatorWith (hj : j.depth ≤ n) {a : Animator String} :
    (animatorWith reader path j).Gives a ↔ IsAnimator j a := by
  cases j with
  | object ms =>
    cases a with
    | plain property animation =>
      simp [animatorWith, IsAnimator, animatorOf_eq_plain, Optional]
    | controlled property animation values onProperties onController =>
      have hcontroller := gives_controller h (f := ⟨path, ms⟩)
        (c := ((values, onProperties), onController)) hj
      simp only [animatorWith, Reader.gives_object, Json.object.injEq, exists_eq_left',
        Reading.gives_seq, Reading.gives_map, IsAnimator, ← hcontroller]
      simp [animatorOf_eq_controlled, and_assoc]
  | _ => cases a <;> simp [animatorWith, IsAnimator]

omit h in
theorem readsBelow_animatorsTo (n : Nat) : ReadsBelow (animatorsTo n) n := by
  induction n with
  | zero => exact fun _ _ _ hj => absurd hj (Nat.not_lt_zero _)
  | succ n ih =>
    intro path j as hj
    cases j with
    | array items =>
      have hitem : ∀ item ∈ items, ∀ path a,
          (animatorWith (animatorsTo n) path item).Gives a ↔ IsAnimator item a := by
        intro item hmem path a
        have hlt := depth_lt_of_mem hmem
        exact gives_animatorWith ih (by omega)
      simp [animatorsTo, Reader.list, Reader.gives_listFrom hitem, areAnimators_iff]
    | _ => simp [animatorsTo, Reader.list]

end Nested

theorem readsBelow_animators (n : Nat) : ReadsBelow animators n :=
  fun path j as _ => readsBelow_animatorsTo (j.depth + 1) path j as (Nat.lt_succ_self _)

@[simp] theorem gives_base {b : Base String} : (base f).Gives b ↔ DescribesBase f.members b := by
  rcases b with ⟨d, values, onProperties, onObject⟩
  simp only [base, propertySet, Reading.gives_seq, Reading.gives_map, describesBase_iff,
    gives_description, gives_items (f := f) (readsBelow_animators _) (Nat.le_refl _),
    ← gives_properties (f := f) (readsBelow_animators _) (Nat.le_refl _)]
  simp [and_assoc]

/-! ## Records by type -/

theorem describesCommand_of_gives {option : String × (Fields → Reading PathCommand)}
    (hoption : option ∈ commandKinds) {command : PathCommand} (h : (option.2 f).Gives command) :
    command.kind = option.1 ∧ Format.DescribesCommand f.members command := by
  simp only [commandKinds, List.mem_cons, List.not_mem_nil, or_false] at hoption
  rcases hoption with rfl | rfl | rfl | rfl <;> simp at h <;>
    grind [PathCommand.kind, Format.DescribesCommand]

theorem gives_commandKinds {tag : String} {command : PathCommand} :
    (∃ r, commandKinds.lookup tag = some r ∧ (r f).Gives command) ↔
      tag = command.kind ∧ Format.DescribesCommand f.members command := by
  apply Reader.gives_option_iff
  · exact fun option hoption command => describesCommand_of_gives hoption
  · intro command h
    cases command <;> refine ⟨_, rfl, ?_⟩ <;> simp_all [Format.DescribesCommand]

@[simp] theorem gives_pathCommand (path : KeyPath) (j : Json) (command : PathCommand) :
    (pathCommand path j).Gives command ↔ Format.pathCommand j command := by
  simp only [pathCommand, Reader.gives_tagged, gives_commandKinds, Format.pathCommand,
    Format.object, Required, Format.string]
  grind

@[simp] theorem gives_commands {commands : List PathCommand} :
    (Reader.list pathCommand path j).Gives commands ↔
      Format.list Format.pathCommand j commands :=
  Reader.gives_list gives_pathCommand

@[simp] theorem gives_colorFrames {k : Frames String Color} :
    (frames (keyFrame color) f).Gives k ↔
      DescribesFrames (Format.keyFrame Format.color) f.members k :=
  gives_frames (gives_keyFrame gives_color)

@[simp] theorem gives_scalarFrames {k : Frames String Number} :
    (frames (keyFrame Reader.number) f).Gives k ↔
      DescribesFrames (Format.keyFrame Format.number) f.members k :=
  gives_frames (gives_keyFrame Reader.gives_number)

@[simp] theorem gives_vector2Frames {k : Frames String Vector2} :
    (frames (keyFrame vector2) f).Gives k ↔
      DescribesFrames (Format.keyFrame Format.vector2) f.members k :=
  gives_frames (gives_keyFrame gives_vector2)

@[simp] theorem gives_vector3Frames {k : Frames String Vector3} :
    (frames (keyFrame vector3) f).Gives k ↔
      DescribesFrames (Format.keyFrame Format.vector3) f.members k :=
  gives_frames (gives_keyFrame gives_vector3)

@[simp] theorem gives_pathFrames {k : Frames String String} :
    (frames pathKeyFrame f).Gives k ↔ DescribesFrames Format.pathKeyFrame f.members k :=
  gives_frames gives_pathKeyFrame

theorem describesVariant_of_gives {option : String × (Fields → Reading (Variant String))}
    (hoption : option ∈ variantTypes) {v : Variant String} (h : (option.2 f).Gives v) :
    v.typeName = option.1 ∧ DescribesVariant f.members v := by
  simp only [variantTypes, List.mem_cons, List.not_mem_nil, or_false] at hoption
  rcases hoption with rfl | rfl | rfl | rfl | rfl | rfl | rfl | rfl | rfl | rfl | rfl | rfl | rfl |
    rfl | rfl | rfl | rfl | rfl | rfl | rfl <;> simp at h <;>
    grind [Variant.typeName, DescribesVariant]

theorem gives_variantTypes {tag : String} {v : Variant String} :
    (∃ r, variantTypes.lookup tag = some r ∧ (r f).Gives v) ↔
      tag = v.typeName ∧ DescribesVariant f.members v := by
  apply Reader.gives_option_iff
  · exact fun option hoption v => describesVariant_of_gives hoption
  · intro v h
    cases v <;> refine ⟨_, rfl, ?_⟩ <;> simp_all [DescribesVariant]

theorem describesGeometry_of_gives {option : String × (Fields → Reading (CanvasGeometry String))}
    (hoption : option ∈ geometryTypes) {g : CanvasGeometry String} (h : (option.2 f).Gives g) :
    g.typeName = option.1 ∧ DescribesGeometry f.members g := by
  simp only [geometryTypes, List.mem_cons, List.not_mem_nil, or_false] at hoption
  rcases hoption with rfl | rfl | rfl | rfl <;> simp at h <;>
    grind [CanvasGeometry.typeName, DescribesGeometry]

theorem gives_geometryTypes {tag : String} {g : CanvasGeometry String} :
    (∃ r, geometryTypes.lookup tag = some r ∧ (r f).Gives g) ↔
      tag = g.typeName ∧ DescribesGeometry f.members g := by
  apply Reader.gives_option_iff
  · exact fun option hoption g => describesGeometry_of_gives hoption
  · intro g h
    cases g <;> refine ⟨_, rfl, ?_⟩ <;> simp_all [DescribesGeometry]

theorem gives_composed {r : Fields → Reading (Variant String)} {o : Object String} :
    (composed r f).Gives o ↔ ∃ base variant, o = .composition base variant ∧
      DescribesBase f.members base ∧ (r f).Gives variant := by
  simp only [composed, Reading.gives_pair, gives_base]

theorem gives_outlined {r : Fields → Reading (CanvasGeometry String)} {o : Object String} :
    (outlined r f).Gives o ↔ ∃ description geometry, o = .canvas description geometry ∧
      DescribesDescription f.members description ∧ (r f).Gives geometry := by
  simp only [outlined, Reading.gives_pair, gives_description]

theorem gives_compositionTypes {tag : String} {o : Object String} :
    (∃ r, compositionTypes.lookup tag = some r ∧ (r f).Gives o) ↔
      tag = o.typeName ∧ o.typeName ≠ "CanvasGeometry" ∧ DescribesContent f.members o := by
  apply Reader.gives_option_iff
  · intro option hoption o h
    rcases List.mem_append.mp hoption with hoption | hoption
    · obtain ⟨t, ht, rfl⟩ := List.mem_map.mp hoption
      obtain ⟨base, variant, rfl, hbase, hvariant⟩ := gives_composed.mp h
      obtain ⟨hname, hdescribes⟩ := describesVariant_of_gives ht hvariant
      refine ⟨hname, ?_, hbase, hdescribes⟩
      cases variant <;> simp [Object.typeName, Variant.typeName]
    · rw [List.mem_singleton.mp hoption] at h ⊢
      obtain ⟨description, source, rfl, hdescription, hsource⟩ := Reading.gives_pair.mp h
      simp_all [Object.typeName, DescribesContent]
  · rintro o ⟨htype, h⟩
    rw [compositionTypes]
    cases o with
    | composition base variant =>
      obtain ⟨r, hr, hgives⟩ := gives_variantTypes.mpr ⟨rfl, h.2⟩
      refine ⟨composed r, ?_, gives_composed.mpr ⟨base, variant, rfl, h.1, hgives⟩⟩
      rw [List.lookup_append, lookup_map_snd, Object.typeName, hr]
      rfl
    | path description source =>
      refine ⟨_, rfl, ?_⟩
      simp_all [DescribesContent]
    | canvas description geometry => exact absurd rfl htype

theorem gives_canvasTypes {tag : String} {o : Object String} :
    (∃ r, canvasTypes.lookup tag = some r ∧ (r f).Gives o) ↔
      ∃ description geometry, o = .canvas description geometry ∧ tag = geometry.typeName ∧
        DescribesDescription f.members description ∧ DescribesGeometry f.members geometry := by
  simp only [canvasTypes, lookup_map_snd, Option.map_eq_some_iff]
  constructor
  · rintro ⟨_, ⟨r, hr, rfl⟩, h⟩
    obtain ⟨description, geometry, rfl, hdescription, hgeometry⟩ := gives_outlined.mp h
    obtain ⟨htag, hdescribes⟩ := gives_geometryTypes.mp ⟨r, hr, hgeometry⟩
    exact ⟨description, geometry, rfl, htag, hdescription, hdescribes⟩
  · rintro ⟨description, geometry, rfl, htag, hdescription, hdescribes⟩
    obtain ⟨r, hr, hgeometry⟩ := gives_geometryTypes.mpr ⟨htag, hdescribes⟩
    exact ⟨_, ⟨r, hr, rfl⟩,
      gives_outlined.mpr ⟨description, geometry, rfl, hdescription, hgeometry⟩⟩

theorem gives_read {ms : Members} {type : String} (htype : ms.lookup "type" = some (.string type))
    {o : Object String} : (read type path (.object ms)).Gives o ↔ DescribesObject ms o := by
  have hname : Required ms "type" Format.string o.typeName ↔ type = o.typeName := by
    simp [Required, Format.string, htype]
  rw [DescribesObject, hname]
  by_cases hcanvas : type = "CanvasGeometry"
  · subst hcanvas
    have hread : read "CanvasGeometry" = Reader.tagged "geometryType" canvasTypes := rfl
    simp only [hread, Reader.gives_tagged, gives_canvasTypes, Json.object.injEq]
    constructor
    · rintro ⟨_, tag, rfl, htag, description, geometry, rfl, rfl, hdescription, hgeometry⟩
      exact ⟨rfl, hdescription, ⟨_, htag, rfl⟩, hgeometry⟩
    · rintro ⟨hcanvas, hcontent⟩
      cases o with
      | composition base variant =>
        cases variant <;> simp [Object.typeName, Variant.typeName] at hcanvas
      | path description source => simp [Object.typeName] at hcanvas
      | canvas description geometry =>
        obtain ⟨hdescription, ⟨_, htag, rfl⟩, hgeometry⟩ := hcontent
        exact ⟨ms, _, rfl, htag, description, geometry, rfl, rfl, hdescription, hgeometry⟩
  · have hread : read type = Reader.tagged "type" compositionTypes := by simp [read, hcanvas]
    simp only [hread, Reader.gives_tagged, gives_compositionTypes, Json.object.injEq]
    constructor
    · rintro ⟨_, tag, rfl, htag, rfl, _, hcontent⟩
      rw [htype] at htag
      cases htag
      exact ⟨rfl, hcontent⟩
    · rintro ⟨rfl, hcontent⟩
      exact ⟨ms, _, rfl, htype, rfl, hcanvas, hcontent⟩

end Record

end SceneCompiler
