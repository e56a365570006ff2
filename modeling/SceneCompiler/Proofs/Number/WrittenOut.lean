import SceneCompiler.Proofs.Number.ReadBack
import SceneCompiler.Proofs.Number.Rounding

/-!
# Numbers written out

Expanding the exponent in the text of a number puts the point where the exponent says and leaves any
other text alone.  So every finite number can be written with digits and at most one point, and reads
back all the same.
-/

namespace SceneCompiler

def decimalText (whole fraction : List Char) : List Char :=
  whole ++ if fraction = [] then [] else '.' :: fraction

def IsPlain (text : List Char) : Prop :=
  ∃ whole fraction, text = decimalText whole fraction ∧ whole ≠ [] ∧ AreDigits whole ∧
    AreDigits fraction

theorem isPlain_digits {digits : List Char} (hne : digits ≠ []) (hdigits : AreDigits digits) :
    IsPlain digits :=
  ⟨digits, [], by simp [decimalText], hne, hdigits, by simp [AreDigits]⟩

theorem isPlain_point {whole fraction : List Char} (hwhole : whole ≠ []) (hfraction : fraction ≠ [])
    (hdigits : AreDigits whole) (hothers : AreDigits fraction) :
    IsPlain (whole ++ '.' :: fraction) :=
  ⟨whole, fraction, by simp [decimalText, hfraction], hwhole, hdigits, hothers⟩

theorem isPlain_writtenOut {digits : List Char} (hne : digits ≠ []) (hdigits : AreDigits digits)
    (place : Int) : IsPlain (writtenOut digits place) := by
  unfold writtenOut
  split
  · exact isPlain_point (List.cons_ne_nil '0' []) (by simp [hne]) (by simp [AreDigits])
      (areDigits_append.mpr ⟨areDigits_zeros _, hdigits⟩)
  · split
    · exact isPlain_digits (by simp [hne]) (areDigits_append.mpr ⟨hdigits, areDigits_zeros _⟩)
    · refine isPlain_point ?_ ?_ (hdigits.sublist (List.take_sublist _ _))
        (hdigits.sublist (List.drop_sublist _ _))
      · simp only [ne_eq, List.take_eq_nil_iff, hne, or_false]
        omega
      · simp only [ne_eq, List.drop_eq_nil_iff]
        omega

/-! ## Expanding exponents -/

namespace Scientific

variable {sign whole rest : List Char}

theorem parse?_digits (hsign : IsSign sign) (hne : whole ≠ []) (hwhole : AreDigits whole)
    (hstop : rest.takeWhile Char.isDigit = []) :
    parse? (sign ++ (whole ++ rest)) =
      (takeFraction? rest).bind fun taken =>
        (exponent? taken.2).map fun exponent => ⟨sign, whole, taken.1, exponent⟩ := by
  have hsplit := takeSign_append hsign hne hwhole rest
  have hdrop : rest.dropWhile Char.isDigit = rest := by
    have hparts := List.takeWhile_append_dropWhile (p := Char.isDigit) (l := rest)
    rwa [hstop, List.nil_append] at hparts
  simp only [parse?, hsplit, hwhole.takeWhile_append, hwhole.dropWhile_append, hstop, hdrop,
    List.append_nil, List.isEmpty_iff, hne, if_false]
  cases takeFraction? rest <;> rfl

theorem exponent?_mark (e : Int) :
    exponent? ('e' :: (if e < 0 then '-' else '+') :: Nat.toDigits 10 e.natAbs) = some e := by
  have hall := List.all_eq_true.mpr (areDigits_toDigits e.natAbs)
  simp only [exponent?, takeSign_mark, natOfDigits_toDigits, hall, signed_mark]
  simp [Nat.toDigits_ne_nil]

theorem expand_eq (s : Scientific) :
    s.expand = s.sign ++ writtenOut (s.whole ++ s.fraction) (s.whole.length + s.exponent) :=
  rfl

end Scientific

section Expansion

open Scientific

variable {sign : List Char} (hsign : IsSign sign)

include hsign

theorem parse?_of_isPlain {text : List Char} (h : IsPlain text) : parse? (sign ++ text) = none := by
  obtain ⟨whole, fraction, rfl, hne, hwhole, hfraction⟩ := h
  unfold decimalText
  split
  · rw [parse?_digits hsign hne hwhole rfl]
    rfl
  · rename_i hpoint
    have htaken := takeFraction?_point [] hfraction hpoint rfl
    rw [List.append_nil] at htaken
    rw [parse?_digits hsign hne hwhole rfl, htaken]
    rfl

theorem expandExponent_of_isPlain {text : List Char} (h : IsPlain text) :
    expandExponent (sign ++ text) = sign ++ text := by
  rw [expandExponent, parse?_of_isPlain hsign h]

theorem expandExponent_positional {digits : List Char} (hne : digits ≠ []) (hdigits : AreDigits digits)
    (place : Int) :
    expandExponent (sign ++ positional digits place) = sign ++ writtenOut digits place := by
  rcases positional_cases hne place with ⟨_, hout⟩ | ⟨_, first, others, rfl, hexponent⟩
  · rw [hout]
    exact expandExponent_of_isPlain hsign (isPlain_writtenOut hne hdigits place)
  · obtain ⟨hfirst, hothers⟩ :=
      areDigits_append.mp (show AreDigits ([first] ++ others) from hdigits)
    generalize hmark : 'e' :: (if place - 1 < 0 then '-' else '+') ::
      Nat.toDigits 10 (place - 1).natAbs = mark at hexponent
    have hparsed : exponent? mark = some (place - 1) := hmark ▸ exponent?_mark _
    have hstop : mark.takeWhile Char.isDigit = [] := hmark ▸ rfl
    have hparse : parse? (sign ++ positional (first :: others) place) =
        some ⟨sign, [first], others, place - 1⟩ := by
      rw [hexponent]
      split
      · rename_i hempty
        have htaken : takeFraction? mark = some ([], mark) := hmark ▸ rfl
        rw [List.nil_append, parse?_digits hsign (List.cons_ne_nil _ _) hfirst hstop, htaken, hempty]
        simp [hparsed]
      · rename_i hmore
        rw [parse?_digits hsign (List.cons_ne_nil _ _) hfirst rfl,
          takeFraction?_point _ hothers hmore hstop]
        simp [hparsed]
    rw [expandExponent, hparse]
    change sign ++ writtenOut ([first] ++ others) ([first].length + (place - 1)) = _
    congr 2
    simp

end Expansion

/-! ## The text of a number without exponent -/

namespace Number

def signText (negative : Bool) : List Char :=
  if negative then ['-'] else []

theorem signText_cases (negative : Bool) : signText negative = [] ∨ signText negative = ['-'] := by
  cases negative
  · exact .inl rfl
  · exact .inr rfl

theorem signText_append (negative : Bool) (text : List Char) :
    signText negative ++ text = if negative then '-' :: text else text := by
  cases negative <;> rfl

theorem chars_finite (negative : Bool) {units : Nat} (h : Representable units) :
    (Number.finite negative units h).chars false =
      signText (negative && units != 0) ++ magnitudeText units := by
  rw [chars, Bool.or_false, signText_append]

/-- The text of a finite number with its exponent expanded: a sign, digits, and at most one point. -/
theorem expandExponent_chars (negative : Bool) {units : Nat} (h : Representable units) :
    ∃ text, IsPlain text ∧
      expandExponent ((Number.finite negative units h).chars false) =
        signText (negative && units != 0) ++ text ∧
      Json.number? (signText (negative && units != 0) ++ text) =
        some ((Number.finite negative units h).written, []) := by
  have hsign : Scientific.IsSign (signText (negative && units != 0)) :=
    (signText_cases _).imp_right .inr
  have hnumber := number?_chars negative h
  rw [chars_finite] at hnumber ⊢
  by_cases hzero : units = 0
  · have hplain : IsPlain (magnitudeText units) := by
      rw [magnitudeText, if_pos hzero]
      exact isPlain_digits (List.cons_ne_nil _ _) (by simp [AreDigits])
    exact ⟨_, hplain, expandExponent_of_isPlain hsign hplain, hnumber⟩
  · obtain ⟨hdigits, hread⟩ := Decimal.strip_shortest h hzero
    obtain ⟨d, hspells, hd⟩ := spells_writtenOut hdigits (Decimal.shortest units).strip.exponent
    have htext := magnitudeText_eq hzero
    have hall := areDigits_toDigits (Decimal.shortest units).strip.digits
    generalize (Decimal.shortest units).strip.exponent + (_ : Int) = place at hspells htext
    refine ⟨_, isPlain_writtenOut Nat.toDigits_ne_nil hall place, ?_, ?_⟩
    · rw [htext, expandExponent_positional hsign Nat.toDigits_ne_nil hall]
    · rw [signText_append, number?_of_spells _ hspells, hd, hread, written]

end Number

end SceneCompiler
