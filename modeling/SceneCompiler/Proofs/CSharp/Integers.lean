import SceneCompiler.CSharp.Literal
import SceneCompiler.Proofs.Number.Whole

/-!
# Integer literals

A whole number is written by the digits that are needed to read it back, and a duration by its ticks.
The text is a literal of its type exactly if the number is in range: within 32 bits for a step, and up
to 2^63 ticks for a duration that is not negative.
-/

namespace SceneCompiler

inductive IntegerType where
  | step
  | ticks
deriving DecidableEq, Repr

namespace IntegerType

def low : IntegerType → Int
  | .step => -2 ^ 31
  | .ticks => 0

def high : IntegerType → Int
  | .step => 2 ^ 31 - 1
  | .ticks => 2 ^ 63 - 1

def Admits (type : IntegerType) (text : String) : Prop :=
  ∃ k : Int, type.low ≤ k ∧ k ≤ type.high ∧ text = toString k

end IntegerType

namespace Number

def isStep (v : Number) : Bool :=
  (ofRatio true 2147483648 1).le v && v.le (ofRatio false 2147483647 1)

/-- The longest duration, 922337203685477.5 ms: the next number is 2^63 ticks or more. -/
def longestDuration : Number :=
  ofRatio false 1844674407370955 2

/-! ## Rounding -/

section Rounding

variable {units : Nat}

theorem ofRatio_whole (negative : Bool) {m : Nat} (h : Representable (m * one)) :
    ofRatio negative m 1 = .finite negative (m * one) h := by
  rw [ofRatio, nearestUnits_one h, ofUnits_eq_finite h]

theorem truncate_whole (negative : Bool) {m : Nat} (h : Representable (m * one)) :
    (Number.finite negative (m * one) h).truncate = .finite negative (m * one) h := by
  rw [truncate, Nat.mul_div_cancel m one_pos, ofRatio_whole negative h]

theorem round_cases (h : Representable units) :
    units < 2 ^ 52 * one ∨ (2 * units + one) / (2 * one) * one = units := by
  have hone := one_pos
  refine h.lt_or_whole.imp_right fun hwhole => ?_
  generalize one = one at hone hwhole ⊢
  obtain ⟨m, rfl⟩ := Nat.dvd_of_mod_eq_zero hwhole
  rw [show 2 * (one * m) + one = one + 2 * one * m by ring, Nat.add_mul_div_left _ _ (by omega),
    Nat.div_eq_of_lt (by omega), Nat.zero_add, Nat.mul_comm]

theorem representable_round (h : Representable units) :
    Representable ((2 * units + one) / (2 * one) * one) := by
  have hone := one_pos
  rcases round_cases h with hlt | heq
  · refine representable_whole ?_
    generalize one = one at hone hlt ⊢
    rw [Nat.div_lt_iff_lt_mul (by omega)]
    omega
  · rwa [heq]

theorem round_finite (h : Representable units) :
    (Number.finite false units h).round = .finite false _ (representable_round h) := by
  rw [round, ofRatio_whole false (representable_round h)]

theorem round_lt_iff (h : Representable units) :
    (2 * units + one) / (2 * one) < 2 ^ 63 ↔ units < 2 ^ 63 * one := by
  have hone := one_pos
  rcases round_cases h with hlt | heq
  · generalize one = one at hone hlt ⊢
    rw [Nat.div_lt_iff_lt_mul (by omega)]
    omega
  · generalize one = one at hone heq ⊢
    rw [← Nat.mul_lt_mul_right hone, heq]

theorem representable_limit : Representable (2 ^ 63 * one) := by
  simpa using representable_shift_whole (m := 1) (k := 63) (by decide) (by decide)

theorem scale_lt_iff (h : Representable units) :
    nearestUnits (units * 10000) 1 < 2 ^ 63 * one ↔ units ≤ 7378697629483820 * Nat.pow 2 1071 := by
  have hlargest : Representable ((2 ^ 53 - 1) * 2 ^ 10 * one) :=
    representable_shift_whole (by decide) (by decide)
  have hlongest : nearestUnits (7378697629483820 * Nat.pow 2 1071 * 10000) 1 < 2 ^ 63 * one := by
    decide +kernel
  have hlimit := representable_limit
  have hone : one = 8 * Nat.pow 2 1071 := by decide +kernel
  have hstep (k : Nat) : units < 2 ^ 52 * Nat.pow 2 k ∨ Nat.pow 2 k ∣ units := by
    rw [Nat.pow_eq, ← Nat.pow_add]
    exact h.lt_or_dvd k
  have hmultiple := hstep 1071
  have hpos := one_pos
  generalize one = one at *
  generalize Nat.pow 2 1071 = step at *
  have hbelow (hsmall : units * 10000 ≤ (2 ^ 53 - 1) * 2 ^ 10 * one) :
      nearestUnits (units * 10000) 1 < 2 ^ 63 * one :=
    Nat.lt_of_le_of_lt (nearestUnits_le hlargest Nat.one_pos (by rwa [Nat.mul_one])) (by omega)
  rcases hmultiple with hlt | ⟨j, rfl⟩
  · exact iff_of_true (hbelow (by omega)) (by omega)
  · rcases Nat.lt_trichotomy j 7378697629483820 with hj | rfl | hj
    · have hle := Nat.mul_le_mul_left step (show j ≤ 7378697629483819 by omega)
      exact iff_of_true (hbelow (by omega)) (by omega)
    · rw [Nat.mul_comm step]
      exact iff_of_true hlongest (Nat.le_refl _)
    · have hle := Nat.mul_le_mul_left step (show 7378697629483821 ≤ j by omega)
      have habove := le_nearestUnits (p := step * j * 10000) hlimit Nat.one_pos (by omega)
      exact iff_of_false (Nat.not_lt.mpr habove) (by omega)

end Rounding

/-! ## Literals -/

section Literals

variable {units m : Nat}

theorem whole_le {limit : Nat} (hlimit : Representable (limit * one)) (h : m ≤ limit) :
    nearestUnits (m * one) 1 ≤ limit * one :=
  nearestUnits_le hlimit Nat.one_pos (by rw [Nat.mul_one]; exact Nat.mul_le_mul_right one h)

theorem le_whole {limit : Nat} (hlimit : Representable (limit * one)) (h : limit ≤ m) :
    limit * one ≤ nearestUnits (m * one) 1 :=
  le_nearestUnits hlimit Nat.one_pos (by rw [Nat.mul_one]; exact Nat.mul_le_mul_right one h)

theorem whole_le_iff {limit : Nat} (hlimit : limit + 1 < 2 ^ 53) :
    nearestUnits (m * one) 1 ≤ limit * one ↔ m ≤ limit := by
  refine ⟨fun hle => ?_, whole_le (representable_whole (by omega))⟩
  by_contra hlt
  have hge := le_whole (representable_whole hlimit) (Nat.not_le.mp hlt)
  exact absurd (Nat.le_of_mul_le_mul_right (Nat.le_trans hge hle) one_pos) (by omega)

theorem admits_iff (type : IntegerType) (negative : Bool) (h : Representable units)
    (hwhole : units % one = 0) :
    ∃ m : Nat, nearestUnits (m * one) 1 = units ∧
      (type.Admits (Number.finite negative units h).text ↔
        m < 10 ^ 21 ∧ type.low ≤ (if negative then -(m : Int) else m) ∧
          (if negative then -(m : Int) else m) ≤ type.high) := by
  obtain ⟨m, hm, htext⟩ := text_whole h hwhole negative
  refine ⟨m, hm, ?_, ?_⟩
  · rintro ⟨k, hlow, hhigh, hk⟩
    obtain ⟨hlt, rfl⟩ := (htext k).mp hk
    exact ⟨hlt, hlow, hhigh⟩
  · rintro ⟨hlt, hlow, hhigh⟩
    exact ⟨_, hlow, hhigh, (htext _).mpr ⟨hlt, rfl⟩⟩

theorem admits_step_iff {v : Number} (h : v.isInteger = true) :
    IntegerType.step.Admits (CSharp.integer v) ↔ v.isStep = true := by
  cases v with
  | infinite _ => cases h
  | nan => cases h
  | finite negative units hunits =>
    have hwhole : units % one = 0 := by simpa [isInteger] using h
    have htruncate : (Number.finite negative units hunits).truncate = .finite negative units hunits := by
      rw [truncate, ofRatio, Nat.div_mul_cancel (Nat.dvd_of_mod_eq_zero hwhole),
        nearestUnits_one hunits, ofUnits_eq_finite hunits]
    have hlow := ofRatio_whole true (representable_whole (show 2147483648 < 2 ^ 53 by decide))
    have hhigh := ofRatio_whole false (representable_whole (show 2147483647 < 2 ^ 53 by decide))
    obtain ⟨m, rfl, hadmits⟩ := admits_iff .step negative hunits hwhole
    rw [CSharp.integer, htruncate, hadmits, isStep, hlow, hhigh]
    cases negative with
    | false =>
      simp [le, whole_le_iff, IntegerType.low, IntegerType.high]
      omega
    | true =>
      simp [le, whole_le_iff, IntegerType.low, IntegerType.high]
      omega

theorem text_limit (h : Representable (2 ^ 63 * one)) :
    (Number.finite false (2 ^ 63 * one) h).text = toString (9223372036854776000 : Int) := by
  decide +kernel +revert

theorem admits_ticks_whole (h : Representable (m * one)) :
    IntegerType.ticks.Admits (Number.finite false (m * one) h).text ↔ m < 2 ^ 63 := by
  obtain ⟨k, hk, htext⟩ := text_whole h (Nat.mul_mod_left m one) false
  constructor
  · rintro ⟨j, _, hhigh, hj⟩
    obtain ⟨_, rfl⟩ := (htext j).mp hj
    have hk' : k ≤ 2 ^ 63 := by
      simp [IntegerType.high] at hhigh
      omega
    have hle := whole_le representable_limit hk'
    rw [hk] at hle
    rcases Nat.lt_or_eq_of_le (Nat.le_of_mul_le_mul_right hle one_pos) with hlt | rfl
    · exact hlt
    · obtain ⟨_, hwritten⟩ := (htext _).mp (text_limit h)
      simp [IntegerType.high] at hhigh hwritten
      omega
  · intro hlt
    have hbelow : k < 2 ^ 63 := by
      by_contra hle
      have hge := le_whole representable_limit (Nat.not_lt.mp hle)
      rw [hk] at hge
      exact absurd (Nat.le_of_mul_le_mul_right hge one_pos) (by omega)
    refine ⟨k, ?_, ?_, (htext k).mpr ⟨by omega, rfl⟩⟩
    · simp [IntegerType.low]
    · simp only [IntegerType.high]
      omega

theorem not_admits_infinity (type : IntegerType) : ¬ type.Admits "Infinity" := by
  rintro ⟨k, _, _, hk⟩
  have hmem : 'I' ∈ (toString k).toList := hk ▸ by decide
  rw [toList_toString, List.mem_append] at hmem
  rcases hmem with hsign | hdigits
  · exact absurd (eq_of_mem_signText hsign) (by decide)
  · exact absurd hdigits ((areDigits_toDigits _).not_mem rfl)

theorem longestDuration_eq :
    ∃ h, longestDuration = .finite false (7378697629483820 * Nat.pow 2 1071) h := by
  have h : Representable (7378697629483820 * Nat.pow 2 1071) := by decide +kernel
  refine ⟨h, ?_⟩
  rw [← ofUnits_eq_finite h]
  decide +kernel

theorem le_finite {a b : Nat} (ha : Representable a) (hb : Representable b) :
    (Number.finite false a ha).le (.finite false b hb) = true ↔ a ≤ b :=
  decide_eq_true_iff

theorem zero_eq : (0 : Number) = .finite false 0 representable_zero := by
  have hzero : (0 : Number) = Number.ofNat 0 := rfl
  rw [hzero, Number.ofNat, ofRatio, Nat.zero_mul, nearestUnits_zero, ofUnits_eq_finite representable_zero]

theorem ticks_finite {units : Nat} (hunits : Representable units)
    (h : Representable (nearestUnits (units * 10000) 1)) :
    CSharp.integer (CSharp.ticks (.finite false units hunits)) =
      (Number.finite false _ (representable_round h)).text := by
  rw [CSharp.ticks, scale, ofUnits_eq_finite h, round_finite h, CSharp.integer, truncate_whole]

theorem ticks_infinite {units : Nat} (hunits : Representable units)
    (h : ¬ Representable (nearestUnits (units * 10000) 1)) :
    CSharp.integer (CSharp.ticks (.finite false units hunits)) = "Infinity" := by
  rw [CSharp.ticks, scale, ofUnits, dif_neg h]
  rfl

theorem ticks_negativeZero (h : Representable 0) :
    CSharp.integer (CSharp.ticks (.finite true 0 h)) = toString (0 : Int) := by
  decide +kernel +revert

theorem admits_ticks_iff {milliseconds : Number} (h : Number.le 0 milliseconds = true) :
    IntegerType.ticks.Admits (CSharp.integer (CSharp.ticks milliseconds)) ↔
      milliseconds.le longestDuration = true := by
  obtain ⟨_, hlongest⟩ := longestDuration_eq
  rw [zero_eq] at h
  rw [hlongest]
  cases milliseconds with
  | nan => cases h
  | infinite negative =>
    cases negative with
    | true => cases h
    | false => exact iff_of_false (not_admits_infinity .ticks) Bool.false_ne_true
  | finite negative units hunits =>
    cases negative with
    | true =>
      have hempty : units = 0 := by simpa [le] using h
      subst hempty
      exact iff_of_true ⟨0, by decide, by decide, ticks_negativeZero hunits⟩ rfl
    | false =>
      rw [le_finite, ← scale_lt_iff hunits]
      by_cases hproduct : Representable (nearestUnits (units * 10000) 1)
      · rw [ticks_finite hunits hproduct, admits_ticks_whole, round_lt_iff hproduct]
      · rw [ticks_infinite hunits hproduct]
        refine iff_of_false (not_admits_infinity .ticks) fun hlt => hproduct ?_
        exact representable_nearestUnits Nat.one_pos (Nat.lt_trans hlt representable_limit.1)

end Literals

end Number

end SceneCompiler
