import SceneCompiler.CSharp.Literal
import SceneCompiler.Proofs.Number.Whole

/-!
# Float literals

A float is written without an exponent: a sign or none, digits, and at most one point.  A whole number
below 10^21 is written with exactly its digits; from there on, and for any other number, the digits read
back as the number, or as the number with nine significant digits.
-/

namespace SceneCompiler

namespace Decimal

theorem roundHalfUp_le {p q k : Nat} (h : p < k * q) : roundHalfUp p q ≤ k := by
  have hq : 0 < q := Nat.pos_of_lt_mul_left h
  have hlt : 2 * p + q < (k + 1) * (2 * q) := by
    have hvalue : (k + 1) * (2 * q) = 2 * (k * q) + 2 * q := by ring
    omega
  exact Nat.lt_succ_iff.mp ((Nat.div_lt_iff_lt_mul (by omega)).mpr hlt)

theorem scaled_lt {units k count : Nat} {power : Int} (hk : k + power = count + 400)
    (h : units * Nat.pow 10 400 < 10 ^ k * Number.one) :
    (scaled units power).1 < 10 ^ count * (scaled units power).2 := by
  have htens := tens_split count 400
  generalize Nat.pow 10 400 = tens at h htens
  refine Nat.lt_of_mul_lt_mul_right (a := tens) ?_
  cases power with
  | ofNat j =>
    have hdigits : k + j = count + 400 := by
      rw [Int.ofNat_eq_natCast] at hk
      omega
    simp only [scaled, Nat.pow_eq]
    generalize Number.one = one at h ⊢
    calc units * 10 ^ j * tens
        = units * tens * 10 ^ j := by ring
      _ < 10 ^ k * one * 10 ^ j := Nat.mul_lt_mul_of_pos_right h (by positivity)
      _ = 10 ^ (k + j) * one := by ring
      _ = 10 ^ count * one * tens := by rw [hdigits, htens]; ring
  | negSucc j =>
    have hdigits : k = count + 400 + (j + 1) := by
      rw [Int.negSucc_eq] at hk
      omega
    simp only [scaled, Nat.pow_eq]
    generalize Number.one = one at h ⊢
    calc units * tens
        < 10 ^ k * one := h
      _ = 10 ^ count * (one * 10 ^ (j + 1)) * tens := by rw [hdigits, Nat.pow_add, htens]; ring

theorem significant_spec (units count : Nat) :
    ∃ m ≤ 10 ^ count, significant units count = ⟨m, place units - count⟩ := by
  obtain ⟨k, hk, hplace⟩ := lt_pow_place units
  have hlt : (scaled units (count - place units)).1 <
      10 ^ count * (scaled units (count - place units)).2 := scaled_lt (by omega) hplace
  refine ⟨_, roundHalfUp_le hlt, ?_⟩
  rw [significant, rounded, Int.neg_sub]

theorem exists_toNumber {m : Nat} {e : Int} (hm : m ≤ 10 ^ 9) (he : e ≤ 7) :
    ∃ k, Representable k ∧ ∀ negative, toNumber negative ⟨m, e⟩ = Number.ofUnits negative k := by
  by_cases hne : m = 0
  · subst hne
    exact ⟨0, Number.representable_zero, fun negative => toNumber_zero negative e⟩
  · have hcount : digitCount m ≤ 10 := (digitCount_le_iff (by decide)).mpr (by omega)
    by_cases hsmall : e + digitCount m < -330
    · refine ⟨0, Number.representable_zero, fun negative => ?_⟩
      rw [toNumber_eq negative hne, if_neg (by omega), if_pos hsmall]
    · have hlimit : Representable (2 ^ 64 * Number.one) := by
        simpa using Number.representable_shift_whole (m := 1) (k := 64) (by decide) (by decide)
      have hvalue : m * 10 ^ e.toNat ≤ 2 ^ 64 := by
        have hpower : 10 ^ e.toNat ≤ 10 ^ 7 := Nat.pow_le_pow_right (by decide) (by omega)
        calc m * 10 ^ e.toNat ≤ 10 ^ 9 * 10 ^ 7 := Nat.mul_le_mul hm hpower
          _ ≤ 2 ^ 64 := by decide
      have hq : 0 < 10 ^ (-e).toNat := by positivity
      have hbound := Number.nearestUnits_le hlimit hq
        (Nat.le_trans (Nat.mul_le_mul_right Number.one hvalue) (Nat.le_mul_of_pos_right _ hq))
      refine ⟨_, Number.representable_nearestUnits hq (Nat.lt_of_le_of_lt hbound hlimit.1),
        fun negative => ?_⟩
      rw [toNumber_eq negative hne, if_neg (by omega), if_neg hsmall, Number.ofRatio]

end Decimal

namespace CSharp

theorem exists_toNinePlaces (negative : Bool) {units : Nat} (h : Representable units)
    (hfraction : units % Number.one ≠ 0) :
    ∃ k, ∃ hk : Representable k, toNinePlaces (.finite negative units h) = .finite negative k hk := by
  have hplace : Decimal.place units ≤ 16 := by
    have hsmall := h.lt_or_whole.resolve_right hfraction
    exact Decimal.place_le_iff.mpr (Nat.lt_of_lt_of_le hsmall (Nat.mul_le_mul_right _ (by decide)))
  have hne : units ≠ 0 := by
    rintro rfl
    exact hfraction (Nat.zero_mod _)
  obtain ⟨m, hm, hsignificant⟩ := Decimal.significant_spec units 9
  obtain ⟨k, hk, hread⟩ := Decimal.exists_toNumber hm
    (show Decimal.place units - (9 : Nat) ≤ 7 by omega)
  refine ⟨k, hk, ?_⟩
  rw [toNinePlaces, if_neg hne, hsignificant, hread, Number.ofUnits_eq_finite hk]

section Float

variable (negative : Bool) {units : Nat} (h : Representable units)

theorem float_of_small (hwhole : units % Number.one = 0) (hlt : units < Nat.pow 10 21 * Number.one) :
    (float (.finite negative units h)).toList =
      Number.signText (negative && units != 0) ++ Nat.toDigits 10 (units / Number.one) := by
  rw [float]
  by_cases hzero : units = 0
  · subst hzero
    rw [if_pos rfl, Nat.zero_div]
    cases negative <;> rfl
  · rw [if_neg hzero, if_pos hwhole, if_pos hlt, String.toList_ofList]
    simp [Number.signText, hzero]

theorem float_of_large (hwhole : units % Number.one = 0)
    (hle : Nat.pow 10 21 * Number.one ≤ units) :
    (float (.finite negative units h)).toList =
      expandExponent ((Number.finite negative units h).chars false) := by
  have hne : units ≠ 0 := by
    rintro rfl
    exact Nat.not_lt.mpr hle (Nat.mul_pos (by decide) Number.one_pos)
  rw [float, if_neg hne, if_pos hwhole, if_neg (Nat.not_lt.mpr hle), String.toList_ofList]

theorem float_of_fraction (hfraction : units % Number.one ≠ 0) :
    (float (.finite negative units h)).toList =
      expandExponent ((toNinePlaces (.finite negative units h)).chars false) ++ ['F'] := by
  have hne : units ≠ 0 := by
    rintro rfl
    exact hfraction (Nat.zero_mod _)
  rw [float, if_neg hne, if_neg hfraction, String.toList_ofList]

theorem number?_whole (hwhole : units % Number.one = 0) (hlt : units < Nat.pow 10 21 * Number.one) :
    Json.number? (Number.signText (negative && units != 0) ++ Nat.toDigits 10 (units / Number.one)) =
      some ((Number.finite negative units h).written, []) := by
  by_cases hzero : units = 0
  · have hread := Number.number?_chars negative h
    subst hzero
    rw [Nat.zero_div, ← hread]
    cases negative <;> rfl
  · have hunits : units / Number.one * Number.one = units :=
      Nat.div_mul_cancel (Nat.dvd_of_mod_eq_zero hwhole)
    have hne : units / Number.one ≠ 0 := by
      intro hempty
      rw [hempty, Nat.zero_mul] at hunits
      exact hzero hunits.symm
    have hsmall : units / Number.one < 10 ^ 21 := by
      rwa [Nat.pow_eq, ← Nat.div_lt_iff_lt_mul Number.one_pos] at hlt
    have hspells := spells_padded (areDigits_toDigits (units / Number.one)) Nat.toDigits_ne_nil
      (head?_toDigits (Nat.pos_of_ne_zero hne)) 0
    rw [Scientific.natOfDigits_toDigits, Nat.pow_zero, Nat.mul_one, zeros, List.replicate_zero,
      List.append_nil] at hspells
    rw [Number.signText_append, number?_of_spells _ hspells,
      Decimal.toNumber_whole (hunits.symm ▸ h) hne hsmall, hunits, Number.written]

end Float

end CSharp

/-- A finite float is written as a sign or none, digits, at most one point, and the suffix exactly if it
is not whole.  The digits of a whole number below 10^21 are all its digits, negative zero being zero.
What is written reads back as the number, or as the number with nine significant digits. -/
theorem float_written_out (negative : Bool) {units : Nat} (h : Representable units) :
    ∃ sign whole fraction,
      (CSharp.float (.finite negative units h)).toList =
        sign ++ decimalText whole fraction ++
          (if (Number.finite negative units h).isInteger then [] else ['F']) ∧
      (sign = [] ∨ sign = ['-']) ∧ whole ≠ [] ∧ AreDigits whole ∧ AreDigits fraction ∧
      ((Number.finite negative units h).isInteger = true → units < Nat.pow 10 21 * Number.one →
        sign = Number.signText (negative && units != 0) ∧
          whole = Nat.toDigits 10 (units / Number.one) ∧ fraction = []) ∧
      Json.number? (sign ++ decimalText whole fraction) =
        some ((if (Number.finite negative units h).isInteger then .finite negative units h
          else CSharp.toNinePlaces (.finite negative units h)).written, []) := by
  cases hinteger : (Number.finite negative units h).isInteger with
  | true =>
    have hwhole : units % Number.one = 0 := by simpa [Number.isInteger] using hinteger
    rcases Nat.lt_or_ge units (Nat.pow 10 21 * Number.one) with hlt | hle
    · refine ⟨_, _, [], ?_, Number.signText_cases _, Nat.toDigits_ne_nil, areDigits_toDigits _,
        by simp [AreDigits], fun _ _ => ⟨rfl, rfl, rfl⟩, ?_⟩
      · simpa [decimalText] using CSharp.float_of_small negative h hwhole hlt
      · simpa [decimalText] using CSharp.number?_whole negative h hwhole hlt
    · obtain ⟨text, ⟨whole, fraction, rfl, hne, hdigits, hothers⟩, htext, hread⟩ :=
        Number.expandExponent_chars negative h
      refine ⟨_, whole, fraction, ?_, Number.signText_cases _, hne, hdigits, hothers,
        fun _ hlt => absurd hlt (Nat.not_lt.mpr hle), hread⟩
      simpa [htext] using CSharp.float_of_large negative h hwhole hle
  | false =>
    have hfraction : units % Number.one ≠ 0 := by simpa [Number.isInteger] using hinteger
    obtain ⟨k, hk, hplaces⟩ := CSharp.exists_toNinePlaces negative h hfraction
    obtain ⟨text, ⟨whole, fraction, rfl, hne, hdigits, hothers⟩, htext, hread⟩ :=
      Number.expandExponent_chars negative hk
    have hfloat := CSharp.float_of_fraction negative h hfraction
    rw [hplaces, htext] at hfloat
    rw [hplaces]
    exact ⟨_, whole, fraction, hfloat, Number.signText_cases _, hne, hdigits, hothers,
      fun hfalse => absurd hfalse Bool.false_ne_true, hread⟩

theorem float_written_out_smallest :
    ∃ h : Representable 1, (Number.finite true 1 h).isInteger = false ∧
      ∃ sign whole fraction,
        (CSharp.float (.finite true 1 h)).toList =
          sign ++ decimalText whole fraction ++ ['F'] ∧
        (sign = [] ∨ sign = ['-']) ∧ whole ≠ [] ∧ AreDigits whole ∧ AreDigits fraction := by
  have h : Representable 1 := by decide +kernel
  have hinteger : (Number.finite true 1 h).isInteger = false := by decide +kernel +revert
  obtain ⟨sign, whole, fraction, htext, hsign, hne, hdigits, hothers, _⟩ := float_written_out true h
  rw [hinteger] at htext
  exact ⟨h, hinteger, sign, whole, fraction, htext, hsign, hne, hdigits, hothers⟩

end SceneCompiler
