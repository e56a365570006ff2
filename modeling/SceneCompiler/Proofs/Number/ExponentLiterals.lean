import Mathlib.Algebra.Field.Rat
import Mathlib.Algebra.GroupWithZero.Units.Basic
import Mathlib.Tactic.FieldSimp
import Mathlib.Tactic.Ring
import SceneCompiler.Proofs.Number.WrittenOut

/-!
# Literals with exponents

A decimal literal denotes a rational number, with an exponent or without.  Expanding the exponent of a
literal gives a literal without exponent that denotes the same number; every other text is left alone.
-/

namespace SceneCompiler

open Scientific

def signValue (sign : List Char) : ℤ :=
  if sign = ['-'] then -1 else 1

/-- A sign or none, digits, and others behind a point, if there are any. -/
structure DecimalLiteral where
  sign : List Char
  whole : List Char
  fraction : List Char
  isSign : IsSign sign
  whole_ne_nil : whole ≠ []
  areDigits_whole : AreDigits whole
  areDigits_fraction : AreDigits fraction

namespace DecimalLiteral

def text (d : DecimalLiteral) : List Char :=
  d.sign ++ decimalText d.whole d.fraction

def value (d : DecimalLiteral) : ℚ :=
  signValue d.sign * (natOfDigits d.whole + natOfDigits d.fraction / 10 ^ d.fraction.length)

end DecimalLiteral

/-- A decimal literal, a mark, and an exponent: a sign or none, and digits. -/
structure ExponentLiteral extends DecimalLiteral where
  mark : Char
  exponentSign : List Char
  exponentDigits : List Char
  isMark : mark = 'e' ∨ mark = 'E'
  isSign_exponent : IsSign exponentSign
  exponent_ne_nil : exponentDigits ≠ []
  areDigits_exponent : AreDigits exponentDigits

namespace ExponentLiteral

variable (n : ExponentLiteral)

def tail : List Char :=
  n.mark :: (n.exponentSign ++ n.exponentDigits)

def text : List Char :=
  n.toDecimalLiteral.text ++ n.tail

def exponent : ℤ :=
  signValue n.exponentSign * natOfDigits n.exponentDigits

def value : ℚ :=
  n.toDecimalLiteral.value * 10 ^ n.exponent

def parts : Scientific :=
  ⟨n.sign, n.whole, n.fraction, n.exponent⟩

end ExponentLiteral

/-- The number that a text denotes, with an exponent or without. -/
inductive Denotes : List Char → ℚ → Prop
  | decimal (d : DecimalLiteral) : Denotes d.text d.value
  | exponent (n : ExponentLiteral) : Denotes n.text n.value

/-! ## Values -/

namespace DecimalLiteral

theorem value_eq (d : DecimalLiteral) :
    d.value = signValue d.sign * natOfDigits (d.whole ++ d.fraction) *
      10 ^ (-(d.fraction.length : ℤ)) := by
  rw [value, natOfDigits_append, zpow_neg, zpow_natCast]
  push_cast
  field_simp

theorem exists_writtenOut {sign digits : List Char} (hsign : IsSign sign) (hne : digits ≠ [])
    (hdigits : AreDigits digits) (place : ℤ) :
    ∃ d : DecimalLiteral, d.text = sign ++ writtenOut digits place ∧ d.sign = sign ∧
      d.value = signValue sign * natOfDigits digits * 10 ^ (place - digits.length) := by
  unfold writtenOut
  split
  · -- the point is left of the digits
    refine ⟨⟨sign, ['0'], zeros (-place).toNat ++ digits, hsign, List.cons_ne_nil _ _,
      by simp [AreDigits], areDigits_append.mpr ⟨areDigits_zeros _, hdigits⟩⟩, ?_, rfl, ?_⟩
    · simp [text, decimalText, hne]
    · have hvalue : natOfDigits (['0'] ++ (zeros (-place).toNat ++ digits)) = natOfDigits digits := by
        have hzeros := natOfDigits_zeros_append digits ((-place).toNat + 1)
        rwa [zeros, List.replicate_succ, List.cons_append] at hzeros
      rw [value_eq, hvalue]
      congr 2
      simp only [List.length_append, zeros, List.length_replicate]
      omega
  · split
    · -- it is right of the digits or at their end
      refine ⟨⟨sign, digits ++ zeros (place - digits.length).toNat, [], hsign, by simp [hne],
        areDigits_append.mpr ⟨hdigits, areDigits_zeros _⟩, by simp [AreDigits]⟩, ?_, rfl, ?_⟩
      · simp [text, decimalText]
      · rw [value_eq]
        simp only [List.append_nil, natOfDigits_append_zeros, List.length_nil, Nat.cast_zero, neg_zero,
          zpow_zero, mul_one, Nat.cast_mul, Nat.cast_pow, Nat.cast_ofNat, ← zpow_natCast, ← mul_assoc]
        congr 2
        omega
    · -- it is inside
      refine ⟨⟨sign, digits.take place.toNat, digits.drop place.toNat, hsign, ?_,
        hdigits.sublist (List.take_sublist _ _), hdigits.sublist (List.drop_sublist _ _)⟩, ?_, rfl, ?_⟩
      · simp only [ne_eq, List.take_eq_nil_iff, hne, or_false]
        omega
      · have hfraction : digits.drop place.toNat ≠ [] := by
          simp only [ne_eq, List.drop_eq_nil_iff]
          omega
        simp [text, decimalText, hfraction]
      · rw [value_eq]
        simp only [List.take_append_drop, List.length_drop]
        congr 2
        omega

end DecimalLiteral

/-! ## Reading literals -/

namespace DecimalLiteral

theorem isPlain (d : DecimalLiteral) : IsPlain (decimalText d.whole d.fraction) :=
  ⟨_, _, rfl, d.whole_ne_nil, d.areDigits_whole, d.areDigits_fraction⟩

theorem parse?_text (d : DecimalLiteral) : parse? d.text = none :=
  parse?_of_isPlain d.isSign d.isPlain

theorem text_injective : Function.Injective text := by
  intro d d' htext
  have hsplit (d : DecimalLiteral) : takeSign d.text = (d.sign, decimalText d.whole d.fraction) ∧
      (decimalText d.whole d.fraction).takeWhile Char.isDigit = d.whole := by
    refine ⟨takeSign_append d.isSign d.whole_ne_nil d.areDigits_whole _, ?_⟩
    rw [decimalText, d.areDigits_whole.takeWhile_append]
    split <;> simp
  obtain ⟨hsign, hwhole⟩ := hsplit d
  obtain ⟨hsign', hwhole'⟩ := hsplit d'
  rw [htext, hsign', Prod.mk.injEq] at hsign
  obtain ⟨hsigns, hdecimal⟩ := hsign
  have hwholes : d.whole = d'.whole := by rw [← hwhole, ← hdecimal, hwhole']
  have hfractions : d.fraction = d'.fraction := by
    rw [decimalText, decimalText, hwholes] at hdecimal
    have hrest := List.append_cancel_left hdecimal
    split at hrest <;> split at hrest <;> simp_all
  cases d
  cases d'
  simp_all

end DecimalLiteral

theorem Scientific.exponent?_spec {text : List Char} {e : ℤ} (h : exponent? text = some e) :
    ∃ mark sign digits, text = mark :: (sign ++ digits) ∧ (mark = 'e' ∨ mark = 'E') ∧ IsSign sign ∧
      digits ≠ [] ∧ AreDigits digits ∧ e = signValue sign * natOfDigits digits := by
  unfold exponent? at h
  split at h
  · rename_i mark rest
    obtain ⟨hsign, hrest⟩ := takeSign_spec rest
    simp only [Option.ite_none_right_eq_some, Bool.and_eq_true, Bool.or_eq_true, beq_iff_eq,
      Bool.not_eq_true', List.isEmpty_eq_false_iff, List.all_eq_true, Option.some.injEq] at h
    obtain ⟨⟨⟨hmark, hne⟩, hdigits⟩, rfl⟩ := h
    refine ⟨mark, _, _, by rw [hrest], hmark, hsign, hne, hdigits, ?_⟩
    unfold signValue
    split <;> simp
  · cases h

namespace ExponentLiteral

variable (n : ExponentLiteral)

theorem exponent?_tail : exponent? n.tail = some n.exponent := by
  have hsign := takeSign_append n.isSign_exponent n.exponent_ne_nil n.areDigits_exponent []
  rw [List.append_nil] at hsign
  have hall := List.all_eq_true.mpr n.areDigits_exponent
  have hmark : (n.mark == 'e' || n.mark == 'E') = true := by
    simpa using n.isMark
  simp only [exponent?, tail, hsign, hmark, hall, exponent, signValue]
  simp [n.exponent_ne_nil]

theorem parse?_text : parse? n.text = some n.parts := by
  have hmark : n.mark.isDigit = false ∧ n.mark ≠ '.' := by
    rcases n.isMark with hmark | hmark <;> rw [hmark] <;> decide
  have hstop : n.tail.takeWhile Char.isDigit = [] := by
    simp [tail, hmark.1]
  have hread := n.exponent?_tail
  have htext : n.text = n.sign ++ (n.whole ++
      ((if n.fraction = [] then [] else '.' :: n.fraction) ++ n.tail)) := by
    simp [text, DecimalLiteral.text, decimalText]
  have htaken : takeFraction? ((if n.fraction = [] then [] else '.' :: n.fraction) ++ n.tail) =
      some (n.fraction, n.tail) := by
    split
    · rename_i hempty
      rw [List.nil_append, tail, takeFraction?, hempty]
      exact fun _ heq => hmark.2 (List.cons.inj heq).1
    · rename_i hne
      exact takeFraction?_point _ n.areDigits_fraction hne hstop
  rw [htext, parse?_digits n.isSign n.whole_ne_nil n.areDigits_whole, htaken]
  · simp [hread, parts]
  · split
    · exact hstop
    · rfl

theorem exists_of_parse? {text : List Char} {s : Scientific} (h : parse? text = some s) :
    ∃ n : ExponentLiteral, n.text = text ∧ n.parts = s := by
  obtain ⟨hsign, htext⟩ := takeSign_spec text
  simp only [parse?] at h
  split at h
  · cases h
  · rename_i hne
    split at h
    · cases h
    · rename_i fraction rest hfraction
      obtain ⟨e, hexponent, rfl⟩ := Option.map_eq_some_iff.mp h
      obtain ⟨hdigits, hrest⟩ := takeFraction?_spec hfraction
      obtain ⟨mark, sign, digits, rfl, hmark, hexponentSign, hexponent_ne, hexponentDigits, rfl⟩ :=
        exponent?_spec hexponent
      have hwhole : AreDigits ((takeSign text).2.takeWhile Char.isDigit) :=
        fun c hc => List.mem_takeWhile_imp hc
      refine ⟨⟨⟨_, _, fraction, hsign, by simpa using hne, hwhole, hdigits⟩, mark, sign, digits, hmark,
        hexponentSign, hexponent_ne, hexponentDigits⟩, ?_, rfl⟩
      simp only [ExponentLiteral.text, DecimalLiteral.text, decimalText, tail, List.append_assoc,
        ← hrest, List.takeWhile_append_dropWhile, htext]

theorem value_eq : n.value = signValue n.parts.sign *
    natOfDigits (n.parts.whole ++ n.parts.fraction) *
      10 ^ (n.parts.exponent - n.parts.fraction.length) := by
  rw [value, DecimalLiteral.value_eq, mul_assoc, ← zpow_add₀ (by decide)]
  congr 2
  simp only [parts]
  omega

end ExponentLiteral

theorem Denotes.unique {text : List Char} {q q' : ℚ} (h : Denotes text q) (h' : Denotes text q') :
    q = q' := by
  cases h with
  | decimal d =>
    generalize htext : d.text = text at h'
    cases h' with
    | decimal d' => rw [DecimalLiteral.text_injective htext]
    | exponent n =>
      have hparse := n.parse?_text
      rw [← htext, d.parse?_text] at hparse
      cases hparse
  | exponent n =>
    generalize htext : n.text = text at h'
    cases h' with
    | decimal d =>
      have hparse := n.parse?_text
      rw [htext, d.parse?_text] at hparse
      cases hparse
    | exponent n' =>
      have hparse := n.parse?_text
      rw [htext, n'.parse?_text] at hparse
      rw [n.value_eq, n'.value_eq, Option.some.inj hparse]

/-! ## Expanding exponents -/

/-- A literal with an exponent is written out with its own sign, without exponent, and as the same
number; every other text is left alone. -/
theorem expandExponent_denotes :
    (∀ n : ExponentLiteral, ∃ d : DecimalLiteral, expandExponent n.text = d.text ∧ d.sign = n.sign ∧
      ∀ q, Denotes (expandExponent n.text) q ↔ Denotes n.text q) ∧
    ∀ text, (∀ n : ExponentLiteral, n.text ≠ text) → expandExponent text = text := by
  constructor
  · intro n
    obtain ⟨d, htext, hsign, hvalue⟩ := DecimalLiteral.exists_writtenOut n.isSign
      (List.append_ne_nil_of_left_ne_nil n.whole_ne_nil n.fraction)
      (areDigits_append.mpr ⟨n.areDigits_whole, n.areDigits_fraction⟩) (n.whole.length + n.exponent)
    have hexpand : expandExponent n.text = d.text := by
      rw [expandExponent, n.parse?_text, htext]
      exact expand_eq n.parts
    have hsame : d.value = n.value := by
      rw [hvalue, n.value_eq]
      congr 2
      simp only [ExponentLiteral.parts, List.length_append]
      omega
    refine ⟨d, hexpand, hsign, fun q => ?_⟩
    rw [hexpand]
    constructor
    · intro hq
      rw [hq.unique (.decimal d), hsame]
      exact .exponent n
    · intro hq
      rw [hq.unique (.exponent n), ← hsame]
      exact .decimal d
  · intro text hnone
    rw [expandExponent]
    cases hparse : parse? text with
    | none => rfl
    | some s =>
      obtain ⟨n, htext, _⟩ := ExponentLiteral.exists_of_parse? hparse
      exact absurd htext (hnone n)

/-- The literal `-12.50E-3`. -/
def shiftedLiteral : ExponentLiteral where
  sign := ['-']
  whole := ['1', '2']
  fraction := ['5', '0']
  isSign := .inr (.inr rfl)
  whole_ne_nil := by decide
  areDigits_whole := by simp [AreDigits]
  areDigits_fraction := by simp [AreDigits]
  mark := 'E'
  exponentSign := ['-']
  exponentDigits := ['3']
  isMark := .inr rfl
  isSign_exponent := .inr (.inr rfl)
  exponent_ne_nil := by decide
  areDigits_exponent := by simp [AreDigits]

/-- `-12.50E-3` is written out, and `1.e5` is no literal. -/
theorem expandExponent_denotes_shifted :
    shiftedLiteral.text = "-12.50E-3".toList ∧
    (∃ d : DecimalLiteral, "-0.01250".toList = d.text ∧ d.sign = ['-'] ∧
      ∀ q, Denotes "-0.01250".toList q ↔ Denotes "-12.50E-3".toList q) ∧
    (∀ n : ExponentLiteral, n.text ≠ "1.e5".toList) ∧
    expandExponent "1.e5".toList = "1.e5".toList := by
  have htext : shiftedLiteral.text = "-12.50E-3".toList := by decide
  have hexpand : expandExponent "-12.50E-3".toList = "-0.01250".toList := by decide
  have hnone : ∀ n : ExponentLiteral, n.text ≠ "1.e5".toList := by
    intro n hn
    have hparse := n.parse?_text
    rw [hn, show parse? "1.e5".toList = none by decide] at hparse
    cases hparse
  have hshifted := expandExponent_denotes.1 shiftedLiteral
  rw [htext, hexpand] at hshifted
  exact ⟨htext, hshifted, hnone, expandExponent_denotes.2 _ hnone⟩

end SceneCompiler
