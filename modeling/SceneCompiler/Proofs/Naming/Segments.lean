import SceneCompiler.Naming
import SceneCompiler.Proofs.Document.Format
import SceneCompiler.Proofs.Number.Digits

/-!
# The segments of a name

What a name says about a number, a vector or a color is written in letters and digits alone.  A
number has at most one point and at most one sign, which are replaced, and exponents are written
out.  A channel of a color is a whole number.
-/

namespace SceneCompiler

theorem toNat_lt_of_isAlphanum {c : Char} (h : c.isAlphanum = true) : c.toNat < 0x80 := by
  unfold Char.isAlphanum Char.isAlpha Char.isUpper Char.isLower Char.isDigit at h
  simp only [UInt32.le_iff_toNat_le, ge_iff_le, Bool.or_eq_true, Bool.and_eq_true,
    decide_eq_true_eq, Char.toNat_val] at h
  simp at h
  omega

def IsSegment (text : List Char) : Prop :=
  text ≠ [] ∧ ∀ c ∈ text, c.isAlphanum = true

instance IsSegment.decidable (text : List Char) : Decidable (IsSegment text) :=
  decidable_of_iff ((!text.isEmpty && text.all Char.isAlphanum) = true) (by simp [IsSegment])

theorem IsSegment.append {a b : List Char} (ha : IsSegment a) (hb : IsSegment b) :
    IsSegment (a ++ b) := by
  refine ⟨by simp [ha.1], fun c hc => ?_⟩
  rcases List.mem_append.mp hc with hc | hc
  · exact ha.2 c hc
  · exact hb.2 c hc

/-! ## Numerals -/

section ReplaceFirst

variable {old new : Char} {text : List Char}

theorem mem_replaceFirst {c : Char} (h : c ∈ replaceFirst old new text) : c ∈ text ∨ c = new := by
  induction text with
  | nil => cases h
  | cons d text ih =>
    rw [replaceFirst] at h
    split at h <;> simp only [List.mem_cons] at h ⊢ <;> tauto

theorem replaceFirst_ne_nil (h : text ≠ []) : replaceFirst old new text ≠ [] := by
  cases text with
  | nil => exact absurd rfl h
  | cons d text =>
    rw [replaceFirst]
    split <;> simp

theorem replaceFirst_of_not_mem (h : old ∉ text) : replaceFirst old new text = text := by
  induction text with
  | nil => rfl
  | cons d text ih =>
    simp only [List.mem_cons, not_or] at h
    rw [replaceFirst, if_neg (Ne.symm h.1), ih h.2]

theorem count_replaceFirst (h : new ≠ old) (text : List Char) :
    (replaceFirst old new text).count old = text.count old - 1 := by
  induction text with
  | nil => rfl
  | cons d text ih =>
    rw [replaceFirst]
    split <;> simp_all

end ReplaceFirst

structure IsUnsigned (text : List Char) : Prop where
  nonempty : text ≠ []
  chars : ∀ c ∈ text, c.isAlphanum = true ∨ c = '.'
  point : text.count '.' ≤ 1

def IsNumeral (text : List Char) : Prop :=
  ∃ body, IsUnsigned body ∧ (text = body ∨ text = '-' :: body)

theorem IsSegment.isUnsigned {text : List Char} (h : IsSegment text) : IsUnsigned text := by
  have hpoint : '.' ∉ text := fun hmem => absurd (h.2 _ hmem) (by decide)
  refine ⟨h.1, fun c hc => .inl (h.2 c hc), ?_⟩
  rw [List.count_eq_zero.mpr hpoint]
  omega

theorem IsUnsigned.replaced {text : List Char} (h : IsUnsigned text) :
    IsSegment (replaceFirst '.' 'p' text) := by
  refine ⟨replaceFirst_ne_nil h.nonempty, fun c hc => ?_⟩
  have hpoint : '.' ∉ replaceFirst '.' 'p' text := by
    rw [← List.count_eq_zero, count_replaceFirst (by decide)]
    exact Nat.sub_eq_zero_of_le h.point
  rcases mem_replaceFirst hc with hmem | rfl
  · rcases h.chars c hmem with halnum | rfl
    · exact halnum
    · exact absurd hc hpoint
  · rfl

theorem IsNumeral.replaced {text : List Char} (h : IsNumeral text) :
    IsSegment (replaceFirst '-' 'm' (replaceFirst '.' 'p' text)) := by
  obtain ⟨body, hbody, rfl | rfl⟩ := h
  · have hsign : '-' ∉ replaceFirst '.' 'p' text := fun hmem =>
      absurd (hbody.replaced.2 _ hmem) (by decide)
    rw [replaceFirst_of_not_mem hsign]
    exact hbody.replaced
  · exact IsSegment.append (a := ['m']) ⟨by simp, by simp⟩ hbody.replaced

theorem AreDigits.isUnsigned {digits : List Char} (h : AreDigits digits) (hne : digits ≠ []) :
    IsUnsigned digits :=
  IsSegment.isUnsigned ⟨hne, h.isAlphanum⟩

theorem isUnsigned_fraction {a b : List Char} (hwhole : AreDigits a) (hfraction : AreDigits b) :
    IsUnsigned (a ++ '.' :: b) := by
  refine ⟨by simp, fun c hc => ?_, ?_⟩
  · simp only [List.mem_append, List.mem_cons] at hc
    rcases hc with hc | rfl | hc
    · exact .inl (hwhole.isAlphanum c hc)
    · exact .inr rfl
    · exact .inl (hfraction.isAlphanum c hc)
  · have hleft := List.count_eq_zero.mpr (hwhole.not_mem (c := '.') rfl)
    have hright := List.count_eq_zero.mpr (hfraction.not_mem (c := '.') rfl)
    simp [hleft, hright]

namespace Scientific

theorem isUnsigned_expand {s : Scientific} (hne : s.whole ≠ []) (hwhole : AreDigits s.whole)
    (hfraction : AreDigits s.fraction) : ∃ body, IsUnsigned body ∧ s.expand = s.sign ++ body := by
  have hdigits := areDigits_append.mpr ⟨hwhole, hfraction⟩
  refine ⟨_, ?_, rfl⟩
  split
  · exact isUnsigned_fraction (a := ['0']) (by simp [AreDigits])
      (areDigits_append.mpr ⟨areDigits_zeros _, hdigits⟩)
  · split
    · exact (areDigits_append.mpr ⟨hdigits, areDigits_zeros _⟩).isUnsigned (by simp [hne])
    · exact isUnsigned_fraction (hdigits.sublist (List.take_sublist _ _))
        (hdigits.sublist (List.drop_sublist _ _))

theorem parse?_spec {text : List Char} {s : Scientific} (h : parse? text = some s) :
    s.sign = (takeSign text).1 ∧ s.whole ≠ [] ∧ AreDigits s.whole ∧ AreDigits s.fraction := by
  simp only [parse?] at h
  split at h
  · cases h
  · rename_i hne
    split at h
    · cases h
    · rename_i fraction rest hfraction
      obtain ⟨exponent, _, rfl⟩ := Option.map_eq_some_iff.mp h
      exact ⟨rfl, by simpa using hne, fun c hc => List.mem_takeWhile_imp hc,
        (takeFraction?_spec hfraction).1⟩

inductive IsExponent : List Char → Prop
  | intro {sign : Char} {digits : List Char} (hsign : sign = '+' ∨ sign = '-') (hne : digits ≠ [])
      (hdigits : AreDigits digits) : IsExponent ('e' :: sign :: digits)

inductive IsExponential : List Char → Prop
  | whole {whole exponent : List Char} (hne : whole ≠ []) (hwhole : AreDigits whole)
      (hexponent : IsExponent exponent) : IsExponential (whole ++ exponent)
  | fraction {whole fraction exponent : List Char} (hne : whole ≠ []) (hwhole : AreDigits whole)
      (hnonempty : fraction ≠ []) (hfraction : AreDigits fraction)
      (hexponent : IsExponent exponent) : IsExponential (whole ++ '.' :: (fraction ++ exponent))

theorem IsExponent.isSome {text : List Char} (h : IsExponent text) :
    (exponent? text).isSome = true := by
  obtain ⟨hsign, hne, hdigits⟩ := h
  have hall := List.all_eq_true.mpr hdigits
  rcases hsign with rfl | rfl <;> simp [exponent?, takeSign, hne, hall]

theorem isSome_parse? {text sign whole rest : List Char}
    (htake : takeSign text = (sign, whole ++ rest)) (hne : whole ≠ []) (hwhole : AreDigits whole)
    (hrest : rest.takeWhile Char.isDigit = []) (hdrop : rest.dropWhile Char.isDigit = rest)
    {fraction exponent : List Char} (hfraction : takeFraction? rest = some (fraction, exponent))
    (hexponent : IsExponent exponent) : (parse? text).isSome = true := by
  simp only [parse?, htake, hwhole.takeWhile_append, hwhole.dropWhile_append, hrest, hdrop,
    hfraction, List.append_nil, List.isEmpty_iff, hne, if_false, Option.isSome_map,
    hexponent.isSome]

theorem IsExponential.isSome {text sign : List Char} (h : IsExponential text)
    (hsign : sign = [] ∨ sign = ['-']) : (parse? (sign ++ text)).isSome = true := by
  have htake {whole : List Char} (hne : whole ≠ []) (hwhole : AreDigits whole) (rest : List Char) :
      takeSign (sign ++ (whole ++ rest)) = (sign, whole ++ rest) :=
    takeSign_append (hsign.imp_right .inr) hne hwhole rest
  cases h with
  | @whole whole exponent hne hwhole hexponent =>
    have hfraction : takeFraction? exponent = some ([], exponent) := by cases hexponent; rfl
    refine isSome_parse? (htake hne hwhole _) hne hwhole ?_ ?_ hfraction hexponent <;>
      cases hexponent <;> rfl
  | @fraction whole fraction exponent hne hwhole hnonempty hfraction hexponent =>
    have htaken : takeFraction? ('.' :: (fraction ++ exponent)) = some (fraction, exponent) := by
      cases hexponent
      simp [takeFraction?, hfraction.takeWhile_append, hfraction.dropWhile_append, hnonempty]
    exact isSome_parse? (htake hne hwhole _) hne hwhole rfl rfl htaken hexponent

end Scientific

def IsMagnitude (text : List Char) : Prop :=
  IsUnsigned text ∨ Scientific.IsExponential text

theorem IsMagnitude.ne_plus {text : List Char} (h : IsMagnitude text) (rest : List Char) :
    text ≠ '+' :: rest := by
  rintro rfl
  rcases h with h | h
  · rcases h.chars '+' List.mem_cons_self with h | h <;> cases h
  · have hdigit {whole tail : List Char} (hne : whole ≠ []) (hwhole : AreDigits whole)
        (heq : '+' :: rest = whole ++ tail) : False := by
      cases whole with
      | nil => exact hne rfl
      | cons c whole =>
        cases heq
        cases hwhole '+' List.mem_cons_self
    generalize htext : '+' :: rest = text at h
    cases h with
    | whole hne hwhole _ => exact hdigit hne hwhole htext
    | fraction hne hwhole _ _ _ => exact hdigit hne hwhole htext

theorem isNumeral_expandExponent {sign body : List Char} (hsign : sign = [] ∨ sign = ['-'])
    (hbody : IsMagnitude body) : IsNumeral (expandExponent (sign ++ body)) := by
  rw [expandExponent]
  cases hparse : Scientific.parse? (sign ++ body) with
  | none =>
    rcases hbody with hbody | hbody
    · rcases hsign with rfl | rfl
      · exact ⟨body, hbody, .inl rfl⟩
      · exact ⟨body, hbody, .inr rfl⟩
    · simpa [hparse] using hbody.isSome hsign
  | some s =>
    obtain ⟨hs, hne, hwhole, hfraction⟩ := Scientific.parse?_spec hparse
    obtain ⟨digits, hdigits, hexpand⟩ := Scientific.isUnsigned_expand hne hwhole hfraction
    refine ⟨digits, hdigits, ?_⟩
    simp only [hexpand, hs]
    rcases hsign with rfl | rfl
    · unfold Scientific.takeSign
      rw [List.nil_append]
      split
      · exact absurd rfl (hbody.ne_plus _)
      · exact .inr rfl
      · exact .inl rfl
    · exact .inr rfl

theorem isMagnitude_positional {digits : List Char} (hne : digits ≠ []) (hdigits : AreDigits digits)
    (place : Int) : IsMagnitude (positional digits place) := by
  unfold positional
  dsimp only
  split
  · exact .inl ((areDigits_append.mpr ⟨hdigits, areDigits_zeros _⟩).isUnsigned (by simp [hne]))
  · split
    · exact .inl (isUnsigned_fraction (hdigits.sublist (List.take_sublist _ _))
        (hdigits.sublist (List.drop_sublist _ _)))
    · split
      · exact .inl (isUnsigned_fraction (a := ['0']) (by simp [AreDigits])
          (areDigits_append.mpr ⟨areDigits_zeros _, hdigits⟩))
      · have hexponent : Scientific.IsExponent ('e' :: (if place - 1 < 0 then '-' else '+') ::
            Nat.toDigits 10 (place - 1).natAbs) :=
          ⟨by split <;> simp, Nat.toDigits_ne_nil, areDigits_toDigits _⟩
        right
        split
        · rename_i d e rest _
          have hwhole : AreDigits [d] := hdigits.sublist (by simp)
          have hfraction : AreDigits (e :: rest) := hdigits.sublist (by simp)
          exact .fraction (by simp) hwhole (by simp) hfraction hexponent
        · exact .whole hne hdigits hexponent

namespace Number

theorem isMagnitude_magnitudeText (units : Nat) : IsMagnitude (magnitudeText units) := by
  rw [magnitudeText]
  split
  · exact .inl (AreDigits.isUnsigned (by simp [AreDigits]) (by simp))
  · exact isMagnitude_positional Nat.toDigits_ne_nil (areDigits_toDigits _) _

theorem exists_chars (n : Number) :
    ∃ sign body, (sign = [] ∨ sign = ['-']) ∧ IsMagnitude body ∧ n.chars false = sign ++ body := by
  cases n with
  | finite negative units representable =>
    rw [chars]
    split
    · exact ⟨['-'], _, .inr rfl, isMagnitude_magnitudeText units, rfl⟩
    · exact ⟨[], _, .inl rfl, isMagnitude_magnitudeText units, rfl⟩
  | infinite negative =>
    have hsegment : IsSegment "Infinity".toList := by decide
    have hletters : IsMagnitude "Infinity".toList := .inl hsegment.isUnsigned
    cases negative with
    | false => exact ⟨[], _, .inl rfl, hletters, rfl⟩
    | true => exact ⟨['-'], _, .inr rfl, hletters, rfl⟩
  | nan =>
    have hsegment : IsSegment "NaN".toList := by decide
    exact ⟨[], "NaN".toList, .inl rfl, .inl hsegment.isUnsigned, rfl⟩

theorem isSegment_idText (n : Number) : IsSegment n.idText.toList := by
  rw [idText, String.toList_ofList]
  obtain ⟨sign, body, hsign, hbody, htext⟩ := n.toThousandths.exists_chars
  rw [htext]
  exact (isNumeral_expandExponent hsign hbody).replaced

end Number

theorem Vector2.isSegment_idText (v : Vector2) : IsSegment v.idText.toList := by
  rw [idText]
  split
  · exact v.x.isSegment_idText
  · rw [String.toList_append, String.toList_append]
    exact (v.x.isSegment_idText.append (by decide)).append v.y.isSegment_idText

/-! ## Colors -/

namespace Number

theorem one_dvd_nearestUnits (k : Nat) : one ∣ nearestUnits (k * one) 1 := by
  have hpow (a b : Nat) (h : a ≤ b) : Nat.pow 2 a ∣ Nat.pow 2 b := Nat.pow_dvd_pow 2 h
  unfold nearestUnits one
  generalize 1074 = places
  generalize (k * Nat.pow 2 places / 1).log2 - 52 = shift
  rcases Nat.le_total places shift with hshift | hshift
  · exact Nat.dvd_mul_left_of_dvd (hpow places shift hshift) _
  · -- the steps are finer than the units, so that nothing is rounded
    have hdvd : Nat.pow 2 shift ∣ k * Nat.pow 2 places :=
      Nat.dvd_mul_left_of_dvd (hpow shift places hshift) k
    have hpositive : 0 < Nat.pow 2 shift := Nat.pow_pos (by decide)
    simp only [Nat.one_mul, Nat.mod_eq_zero_of_dvd hdvd, Nat.mul_zero, hpositive, if_true,
      Nat.div_mul_cancel hdvd]
    exact Nat.dvd_mul_left _ k

theorem isSegment_toDigits (k : Nat) : IsSegment ((Nat.toDigits 16 k).map Char.toUpper) := by
  refine ⟨by simp [Nat.toDigits_ne_nil], ?_⟩
  have hdigit : ∀ d < 16, (Nat.digitChar d).toUpper.isAlphanum = true := by decide
  induction k using Nat.strong_induction_on with
  | h k ih =>
    rcases Nat.lt_or_ge k 16 with hk | hk
    · simpa [Nat.toDigits_of_lt_base hk] using hdigit k hk
    · rw [Nat.toDigits_of_base_le (by decide) hk, List.map_append, List.forall_mem_append]
      refine ⟨ih _ (Nat.div_lt_self (by omega) (by decide)), ?_⟩
      simpa using hdigit (k % 16) (Nat.mod_lt k (by decide))

theorem hexMagnitude_of_dvd {units : Nat} (h : one ∣ units) :
    hexMagnitude units = Nat.toDigits 16 (units / one) := by
  have hfraction : hexFraction 269 0 = [] := rfl
  rw [hexMagnitude, Nat.mod_eq_zero_of_dvd h, hfraction]

theorem isSegment_hexText_whole {units : Nat} (representable : Representable units)
    (h : one ∣ units) : IsSegment (Number.finite false units representable).hexText.toList := by
  have hdigits := isSegment_toDigits (units / one)
  rw [hexText, String.toList_ofList]
  simp only [Bool.false_and, Bool.false_eq_true, if_false, hexMagnitude_of_dvd h]
  exact ⟨by simp [hdigits.1],
    List.forall_mem_append.mpr ⟨(areDigits_zeros _).isAlphanum, hdigits.2⟩⟩

theorem isSegment_hexText (k : Nat) : IsSegment (ofNat k).hexText.toList := by
  rw [ofNat, ofRatio, ofUnits]
  by_cases h : Representable (nearestUnits (k * one) 1)
  · rw [dif_pos h]
    exact isSegment_hexText_whole h (one_dvd_nearestUnits k)
  · rw [dif_neg h]
    decide

end Number

theorem Color.isSegment_name {c : Color} {j : Json} (h : Format.color j c) :
    IsSegment c.name.toList := by
  obtain ⟨_, _, _, _, _, _, _, _, _, ⟨a₁, a₂, _, _, ha⟩, ⟨r₁, r₂, _, _, hr⟩, ⟨g₁, g₂, _, _, hg⟩,
    ⟨b₁, b₂, _, _, hb⟩⟩ := h
  have hhex : IsSegment c.hex.toList := by
    simp only [hex, ha, hr, hg, hb, String.toList_append]
    exact (((Number.isSegment_hexText _).append (Number.isSegment_hexText _)).append
      (Number.isSegment_hexText _)).append (Number.isSegment_hexText _)
  rw [name, nameOfHex]
  cases hname : named.lookup c.hex with
  | none => exact hhex
  | some word =>
    have hwords : ∀ entry ∈ named, IsSegment entry.2.toList := by decide
    obtain ⟨before, after, heq, _⟩ := List.lookup_eq_some_iff.mp hname
    exact hwords (c.hex, word) (heq ▸ by simp)

end SceneCompiler
