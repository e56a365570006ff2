import Mathlib.Tactic.Positivity
import Mathlib.Tactic.Ring
import SceneCompiler.Number

/-!
# Rounding to 53 significant bits

A fraction is rounded to a multiple of a power of two, one of the two next to it.  So what comes out has
53 significant bits, and rounding never passes a number that has.
-/

namespace SceneCompiler

theorem Representable.lt_or_dvd {t : Nat} (h : Representable t) (shift : Nat) :
    t < 2 ^ (52 + shift) ∨ 2 ^ shift ∣ t := by
  by_cases hsize : 52 + shift ≤ t.log2
  · right
    exact Nat.dvd_trans (Nat.pow_dvd_pow 2 (by omega)) h.2
  · left
    exact Nat.lt_of_lt_of_le Nat.lt_log2_self (Nat.pow_le_pow_right (by decide) (by omega))

theorem Representable.lt_or_whole {units : Nat} (h : Representable units) :
    units < 2 ^ 52 * Number.one ∨ units % Number.one = 0 := by
  obtain ⟨k, hone⟩ : ∃ k, Number.one = 2 ^ k := ⟨1074, Nat.pow_eq⟩
  rw [hone, ← Nat.pow_add]
  exact (h.lt_or_dvd k).imp_right Nat.mod_eq_zero_of_dvd

namespace Number

theorem one_pos : 0 < one := by
  unfold one
  generalize 1074 = places
  exact Nat.pow_pos (by decide)

theorem representable_zero : Representable 0 := by
  refine ⟨?_, Nat.dvd_zero _⟩
  generalize 2098 = places
  exact Nat.pow_pos (by decide)

theorem representable_shift {m k : Nat} (hm : m < 2 ^ 53) (hk : 53 + k ≤ 2098) :
    Representable (m * 2 ^ k) := by
  have hlt : m * 2 ^ k < 2 ^ (53 + k) := by
    rw [Nat.pow_add]
    exact Nat.mul_lt_mul_of_pos_right hm (by positivity)
  refine ⟨Nat.lt_of_lt_of_le hlt (Nat.pow_le_pow_right (by decide) hk), ?_⟩
  refine Nat.dvd_trans (Nat.pow_dvd_pow 2 ?_) (Nat.dvd_mul_left _ m)
  by_cases hzero : m * 2 ^ k = 0
  · rw [hzero, Nat.log2_zero]
    omega
  · have := (Nat.log2_lt hzero).mpr hlt
    omega

theorem representable_shift_whole {m k : Nat} (hm : m < 2 ^ 53) (hk : k ≤ 971) :
    Representable (m * 2 ^ k * one) := by
  obtain ⟨places, hone, hplaces⟩ : ∃ places, one = 2 ^ places ∧ 53 + 971 + places ≤ 2098 :=
    ⟨1074, Nat.pow_eq, by decide⟩
  rw [hone, Nat.mul_assoc, ← Nat.pow_add]
  exact representable_shift hm (by omega)

theorem representable_whole {m : Nat} (hm : m < 2 ^ 53) : Representable (m * one) := by
  simpa using representable_shift_whole hm (Nat.zero_le 971)

variable {p q : Nat}

/-- What rounding can do: go down to a multiple of a power of two, or up to the next one if the fraction
lies above.  The power leaves 53 bits. -/
theorem nearestUnits_cases (hq : 0 < q) :
    ∃ shift, (shift = 0 ∨ 2 ^ (52 + shift) ≤ p / q) ∧ p / q < 2 ^ (53 + shift) ∧
      (nearestUnits p q = p / q / 2 ^ shift * 2 ^ shift ∨
        nearestUnits p q = (p / q / 2 ^ shift + 1) * 2 ^ shift ∧
          p / q / 2 ^ shift * 2 ^ shift * q < p) := by
  refine ⟨(p / q).log2 - 52, ?_, ?_, ?_⟩
  · by_cases hsize : (p / q).log2 ≤ 52
    · left
      omega
    · right
      have hne : p / q ≠ 0 := by
        intro hzero
        rw [hzero] at hsize
        exact hsize (by decide)
      rw [Nat.add_sub_cancel' (by omega)]
      exact Nat.log2_self_le hne
  · exact Nat.lt_of_lt_of_le Nat.lt_log2_self (Nat.pow_le_pow_right (by decide) (by omega))
  · have hdiv : p / (q * 2 ^ ((p / q).log2 - 52)) = p / q / 2 ^ ((p / q).log2 - 52) :=
      (Nat.div_div_eq_div_mul _ _ _).symm
    simp only [nearestUnits, Nat.pow_eq, hdiv]
    generalize (p / q).log2 - 52 = shift at hdiv ⊢
    have hstep : 0 < q * 2 ^ shift := by positivity
    have hsplit := Nat.div_add_mod p (q * 2 ^ shift)
    rw [hdiv] at hsplit
    generalize p / q / 2 ^ shift = m at hsplit ⊢
    -- a number that is rounded up is not a multiple
    have habove (hrest : 0 < p % (q * 2 ^ shift)) : m * 2 ^ shift * q < p := by
      have hvalue : m * 2 ^ shift * q = q * 2 ^ shift * m := by ring
      omega
    split
    · exact .inl rfl
    · split
      · exact .inr ⟨rfl, habove (by omega)⟩
      · rcases Nat.mod_two_eq_zero_or_one m with heven | hodd
        · rw [heven]
          exact .inl rfl
        · rw [hodd]
          exact .inr ⟨rfl, habove (by omega)⟩

theorem dvd_nearestUnits (hq : 0 < q) :
    2 ^ ((nearestUnits p q).log2 - 52) ∣ nearestUnits p q := by
  obtain ⟨shift, _, hlt, hcases⟩ := nearestUnits_cases (p := p) hq
  have hquotient : p / q / 2 ^ shift < 2 ^ 53 := by
    rw [Nat.div_lt_iff_lt_mul (by positivity), ← Nat.pow_add]
    exact hlt
  have hmultiple : ∃ m ≤ 2 ^ 53, nearestUnits p q = m * 2 ^ shift := by
    rcases hcases with heq | ⟨heq, _⟩
    · exact ⟨_, Nat.le_of_lt hquotient, heq⟩
    · exact ⟨_, hquotient, heq⟩
  obtain ⟨m, hm, heq⟩ := hmultiple
  rw [heq]
  rcases Nat.lt_or_eq_of_le hm with hm | rfl
  · refine Nat.dvd_trans (Nat.pow_dvd_pow 2 ?_) (Nat.dvd_mul_left _ _)
    have hsmall : m * 2 ^ shift < 2 ^ (53 + shift) := by
      rw [Nat.pow_add]
      exact Nat.mul_lt_mul_of_pos_right hm (by positivity)
    by_cases hzero : m * 2 ^ shift = 0
    · rw [hzero, Nat.log2_zero]
      omega
    · have := (Nat.log2_lt hzero).mpr hsmall
      omega
  · rw [← Nat.pow_add, Nat.log2_two_pow]
    exact Nat.pow_dvd_pow 2 (by omega)

theorem representable_nearestUnits (hq : 0 < q) (hlt : nearestUnits p q < Nat.pow 2 2098) :
    Representable (nearestUnits p q) :=
  ⟨hlt, dvd_nearestUnits hq⟩

theorem le_nearestUnits {t : Nat} (ht : Representable t) (hq : 0 < q) (h : t * q ≤ p) :
    t ≤ nearestUnits p q := by
  obtain ⟨shift, hshift, _, hcases⟩ := nearestUnits_cases (p := p) hq
  have hquotient : t ≤ p / q := (Nat.le_div_iff_mul_le hq).mpr h
  have hdown : t ≤ p / q / 2 ^ shift * 2 ^ shift := by
    rcases ht.lt_or_dvd shift with hsmall | ⟨k, rfl⟩
    · rcases hshift with rfl | hlarge
      · simpa using hquotient
      · refine Nat.le_trans (Nat.le_of_lt hsmall) ?_
        rw [Nat.pow_add]
        refine Nat.mul_le_mul_right _ ((Nat.le_div_iff_mul_le (by positivity)).mpr ?_)
        rwa [← Nat.pow_add]
    · rw [Nat.mul_comm]
      refine Nat.mul_le_mul_right _ ((Nat.le_div_iff_mul_le (by positivity)).mpr ?_)
      rwa [Nat.mul_comm]
  rcases hcases with heq | ⟨heq, _⟩
  · rwa [heq]
  · rw [heq, Nat.add_mul]
    exact Nat.le_add_right_of_le hdown

theorem nearestUnits_le {t : Nat} (ht : Representable t) (hq : 0 < q) (h : p ≤ t * q) :
    nearestUnits p q ≤ t := by
  obtain ⟨shift, hshift, _, hcases⟩ := nearestUnits_cases (p := p) hq
  have hquotient : p / q ≤ t := Nat.div_le_of_le_mul (by rwa [Nat.mul_comm])
  rcases hcases with heq | ⟨heq, habove⟩
  · rw [heq]
    exact Nat.le_trans (Nat.div_mul_le_self _ _) hquotient
  · have hlt : p / q / 2 ^ shift * 2 ^ shift < t :=
      Nat.lt_of_mul_lt_mul_right (Nat.lt_of_lt_of_le habove h)
    rw [heq]
    rcases ht.lt_or_dvd shift with hsmall | ⟨k, rfl⟩
    · rcases hshift with rfl | hlarge
      · simpa [Nat.add_one_le_iff] using hlt
      · omega
    · rw [Nat.mul_comm _ k] at hlt ⊢
      exact Nat.mul_le_mul_right _ (Nat.lt_of_mul_lt_mul_right hlt)

end Number

end SceneCompiler
