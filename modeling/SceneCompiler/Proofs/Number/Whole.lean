import SceneCompiler.Proofs.Number.WrittenOut

/-!
# Whole numbers

The digits of a whole number end before the point.  So its text is that of an integer, unless the
digits are more than twenty-one: then it has an exponent.  The integer is the number rounded to the
digits that are needed to read it back, and may differ from it in the last ones.
-/

namespace SceneCompiler

namespace Decimal

theorem tens_split (a b : Nat) : 10 ^ (a + b) = 10 ^ a * Nat.pow 10 b :=
  Nat.pow_add 10 a b

theorem lt_pow_place (units : Nat) :
    ∃ k : Nat, place units + 400 = k ∧ units * Nat.pow 10 400 < 10 ^ k * Number.one := by
  have hpos : 0 < digitCount (units * Nat.pow 10 400 / Number.one) :=
    List.length_pos_of_ne_nil Nat.toDigits_ne_nil
  refine ⟨_, Int.sub_add_cancel _ _, ?_⟩
  rw [← Nat.div_lt_iff_lt_mul Number.one_pos]
  exact (digitCount_le_iff hpos).mp (Nat.le_refl _)

theorem place_le_iff {units k : Nat} : place units ≤ k ↔ units < 10 ^ k * Number.one := by
  have htens := tens_split k 400
  have hcount : place units ≤ k ↔ units * Nat.pow 10 400 / Number.one < 10 ^ (k + 400) := by
    rw [← digitCount_le_iff (by omega), place]
    omega
  rw [hcount, Nat.div_lt_iff_lt_mul Number.one_pos, htens, Nat.mul_right_comm]
  generalize 400 = places
  exact Nat.mul_lt_mul_right (Nat.pow_pos (by decide))

theorem toNumber_whole {m : Nat} (h : Representable (m * Number.one)) (hne : m ≠ 0) (hlt : m < 10 ^ 21)
    (negative : Bool) : toNumber negative ⟨m, 0⟩ = Number.ofUnits negative (m * Number.one) := by
  have hcount : digitCount m ≤ 21 := (digitCount_le_iff (by decide)).mpr hlt
  rw [toNumber_eq negative hne, if_neg (by omega), if_neg (by omega), Number.ofRatio,
    Int.toNat_zero, Int.neg_zero, Int.toNat_zero, Nat.pow_zero, Nat.mul_one,
    Number.nearestUnits_one h]

/-! ## The shortest decimal of a whole number -/

theorem exponent_of_neighbour? {units p q : Nat} {power : Int} {d : Decimal}
    (h : neighbour? units p q power = some d) : d.exponent = -power := by
  unfold neighbour? at h
  extract_lets below above r belowFirst first second at h
  have hfirst : first.exponent = -power := by
    simp only [first]
    split <;> rfl
  have hsecond : second.exponent = -power := by
    simp only [second]
    split <;> rfl
  split at h
  · exact Option.some.inj h ▸ hfirst
  · split at h
    · exact Option.some.inj h ▸ hsecond
    · cases h

theorem exponent_strip {m : Nat} (hm : 0 < m) (k : Nat) :
    0 ≤ (strip ⟨m * 2 ^ k * 5 ^ k, -k⟩).exponent := by
  have hvalue : m * 2 ^ k * 5 ^ k = m * 10 ^ k := by
    rw [Nat.mul_assoc, ← Nat.mul_pow]
  rw [hvalue]
  have hzeros : k ≤ ((Nat.toDigits 10 (m * 10 ^ k)).reverse.takeWhile (· == '0')).length := by
    rw [toDigits_mul_pow hm, zeros, List.reverse_append, List.reverse_replicate,
      List.takeWhile_append_of_pos (by simp [List.mem_replicate])]
    simp
  simp only [strip]
  omega

theorem exponent_exact_strip {units : Nat} (hwhole : units % Number.one = 0) (hne : units ≠ 0) :
    0 ≤ (strip ⟨units * Nat.pow 5 1074, -1074⟩).exponent := by
  obtain ⟨k, hone, hexact⟩ : ∃ k : Nat, Number.one = Nat.pow 2 k ∧
      ∀ m, (⟨m * Nat.pow 5 1074, -1074⟩ : Decimal) = ⟨m * Nat.pow 5 k, -k⟩ :=
    ⟨1074, rfl, fun _ => rfl⟩
  rw [hexact, Nat.pow_eq]
  rw [hone, Nat.pow_eq] at hwhole
  obtain ⟨m, rfl⟩ := Nat.dvd_of_mod_eq_zero hwhole
  rw [Nat.mul_comm (2 ^ k)]
  exact exponent_strip (Nat.pos_of_ne_zero (right_ne_zero_of_mul hne)) k

variable {units : Nat} (h : Representable units) (hwhole : units % Number.one = 0) (hne : units ≠ 0)

include h hwhole hne

/-- All digits of a whole number read back, so no digit behind the point is tried. -/
theorem shortestOf?_whole {count : Nat} (hplace : place units = count) (hcount : count ≤ 17) :
    shortestOf? units count ≠ none := by
  have hunits : units / Number.one * Number.one = units :=
    Nat.div_mul_cancel (Nat.dvd_of_mod_eq_zero hwhole)
  have hpos : units / Number.one ≠ 0 := by
    intro hempty
    rw [hempty, Nat.zero_mul] at hunits
    exact hne hunits.symm
  have hlt : units / Number.one < 10 ^ 21 := by
    have hdigits := place_le_iff.mp (Int.le_of_eq hplace)
    rw [← Nat.div_lt_iff_lt_mul Number.one_pos] at hdigits
    exact Nat.lt_of_lt_of_le hdigits (Nat.pow_le_pow_right (by decide) (by omega))
  have hread : readsBack units ⟨units / Number.one, 0⟩ = true := by
    rw [readsBack, toNumber_whole (hunits.symm ▸ h) hpos hlt, hunits]
    exact beq_self_eq_true _
  have hscaled : scaled units 0 = (units * 1, Number.one) := rfl
  rw [shortestOf?, hplace, Int.sub_self, hscaled]
  simp [neighbour?, hwhole, Number.one_pos, hread]

theorem exponent_shortest_strip : 0 ≤ (shortest units).strip.exponent := by
  have hunits : units / Number.one * Number.one = units :=
    Nat.div_mul_cancel (Nat.dvd_of_mod_eq_zero hwhole)
  have hpos : 0 < place units := by
    refine Int.not_le.mp fun hplace => hne ?_
    have hlt : units < 10 ^ 0 * Number.one := place_le_iff.mp hplace
    generalize Number.one = one at hunits hlt
    rw [Nat.pow_zero, Nat.one_mul] at hlt
    rw [← hunits, Nat.div_eq_of_lt hlt, Nat.zero_mul]
  rw [shortest]
  cases hfound : (List.range 17).findSome? fun count => shortestOf? units (count + 1) with
  | none =>
    exact exponent_exact_strip hwhole hne
  | some d =>
    obtain ⟨before, count, after, hsplit, hcount, hnone⟩ := List.findSome?_eq_some_iff.mp hfound
    have hexponent := exponent_of_neighbour? hcount
    obtain ⟨zeros, _, hstrip⟩ := strip_spec d
    -- a count that leaves digits behind the point comes after that of all whole digits
    have hle : (count + 1 : Nat) ≤ place units := by
      refine Int.not_lt.mp fun hlt => ?_
      obtain ⟨k, hk⟩ := Int.eq_succ_of_zero_lt hpos
      have hrange : count ∈ List.range 17 := hsplit ▸ by simp
      have hsorted := List.pairwise_lt_range (n := 17)
      have hmem : k ∈ List.range 17 := by
        rw [List.mem_range] at hrange ⊢
        omega
      rw [hsplit] at hsorted hmem
      have hbefore : k ∈ before := by
        rcases List.mem_append.mp hmem with hbefore | hrest
        · exact hbefore
        · rcases List.mem_cons.mp hrest with rfl | hafter
          · omega
          · have := List.rel_of_pairwise_cons (List.pairwise_append.mp hsorted).2.1 hafter
            omega
      rw [List.mem_range] at hrange
      exact shortestOf?_whole h hwhole hne hk (Nat.succ_le_of_lt (by omega)) (hnone k hbefore)
    rw [Option.getD_some, hstrip, hexponent]
    omega

end Decimal

namespace Number

/-! ## Texts of whole numbers -/

theorem toList_toString (k : Int) :
    (toString k).toList = signText (k < 0) ++ Nat.toDigits 10 k.natAbs := by
  rw [Int.toString_eq_repr]
  cases k with
  | ofNat m => exact Nat.toList_repr
  | negSucc m =>
    rw [Int.repr, String.toList_append, Nat.toList_repr, decide_eq_true (Int.negSucc_lt_zero m)]
    rfl

theorem eq_of_mem_signText {negative : Bool} {c : Char} (h : c ∈ signText negative) : c = '-' := by
  cases negative with
  | false => cases h
  | true => exact List.mem_singleton.mp h

theorem signText_toDigits_inj {s t : Bool} {m k : Nat}
    (h : signText s ++ Nat.toDigits 10 m = signText t ++ Nat.toDigits 10 k) : s = t ∧ m = k := by
  have hminus (j : Nat) : '-' ∉ Nat.toDigits 10 j := (areDigits_toDigits j).not_mem rfl
  have hdigits (hsame : Nat.toDigits 10 m = Nat.toDigits 10 k) : m = k := by
    simpa using congrArg Scientific.natOfDigits hsame
  cases s with
  | false =>
    cases t with
    | false => exact ⟨rfl, hdigits h⟩
    | true => exact absurd (h.symm ▸ List.mem_cons_self : '-' ∈ [] ++ Nat.toDigits 10 m) (hminus m)
  | true =>
    cases t with
    | false => exact absurd (h ▸ List.mem_cons_self : '-' ∈ [] ++ Nat.toDigits 10 k) (hminus k)
    | true => exact ⟨rfl, hdigits (List.cons.inj h).2⟩

theorem representable_one : Representable one := by
  simpa using representable_whole (show 1 < 2 ^ 53 by decide)

theorem nearestUnits_zero : nearestUnits 0 1 = 0 :=
  nearestUnits_one representable_zero

variable {units : Nat} (h : Representable units) (hwhole : units % one = 0)

include h hwhole

/-- The text of a whole magnitude has the digits of a number that is rounded to it, or an exponent. -/
theorem magnitudeText_whole :
    ∃ m, nearestUnits (m * one) 1 = units ∧
      (m < 10 ^ 21 ∧ magnitudeText units = Nat.toDigits 10 m ∨
        10 ^ 21 ≤ m ∧ 'e' ∈ magnitudeText units) := by
  by_cases hzero : units = 0
  · refine ⟨0, ?_, .inl ⟨by decide, ?_⟩⟩
    · rw [Nat.zero_mul, hzero, nearestUnits_zero]
    · rw [magnitudeText, if_pos hzero]
      rfl
  · obtain ⟨hdigits, hread⟩ := Decimal.strip_shortest h hzero
    have htext := magnitudeText_eq hzero
    obtain ⟨k, hk⟩ := Int.eq_ofNat_of_zero_le (Decimal.exponent_shortest_strip h hwhole hzero)
    have hdecimal : (Decimal.shortest units).strip = ⟨(Decimal.shortest units).strip.digits, k⟩ := by
      rw [← hk]
    rw [hdecimal] at hread
    rw [hk] at htext
    generalize (Decimal.shortest units).strip.digits = digits at hdigits hread htext
    have hpos := Nat.pos_of_ne_zero hdigits
    have hcount : Decimal.digitCount (digits * 10 ^ k) = (Nat.toDigits 10 digits).length + k :=
      Decimal.digitCount_mul_pow hpos k
    refine ⟨digits * 10 ^ k, ?_, ?_⟩
    · have hfalse := hread false
      rw [Decimal.toNumber_eq false hdigits] at hfalse
      split at hfalse
      · rw [ofUnits_eq_finite h] at hfalse
        cases hfalse
      · rw [if_neg (by omega)] at hfalse
        exact eq_of_ofUnits h (by simpa [ofRatio] using hfalse)
    · rw [htext, ← Nat.not_lt, ← Decimal.digitCount_le_iff (by decide), hcount]
      rcases positional_cases (Nat.toDigits_ne_nil (n := digits) (b := 10))
        (k + (Nat.toDigits 10 digits).length) with ⟨hplace, hout⟩ | ⟨hplace, _, _, _, hexponent⟩
      · have hlength := List.length_pos_of_ne_nil (Nat.toDigits_ne_nil (n := digits) (b := 10))
        refine .inl ⟨by omega, ?_⟩
        rw [hout, writtenOut, if_neg (by omega), if_pos (by omega), toDigits_mul_pow hpos]
        congr 2
        omega
      · refine .inr ⟨by omega, ?_⟩
        rw [hexponent]
        simp

theorem text_whole (negative : Bool) :
    ∃ m, nearestUnits (m * one) 1 = units ∧
      ∀ k : Int, (Number.finite negative units h).text = toString k ↔
        m < 10 ^ 21 ∧ k = if negative then -(m : Int) else m := by
  obtain ⟨m, hm, hcases⟩ := magnitudeText_whole h hwhole
  have hzero : units = 0 ↔ m = 0 := by
    constructor
    · intro hunits
      by_contra hne
      have hle := le_nearestUnits (p := m * one) representable_one Nat.one_pos
        (by rw [Nat.mul_one]; exact Nat.le_mul_of_pos_left _ (Nat.pos_of_ne_zero hne))
      rw [hm, hunits] at hle
      exact Nat.not_lt.mpr hle one_pos
    · rintro rfl
      rw [← hm, Nat.zero_mul, nearestUnits_zero]
  refine ⟨m, hm, fun k => ?_⟩
  have hchars : (Number.finite negative units h).text = toString k ↔
      signText (negative && units != 0) ++ magnitudeText units =
        signText (k < 0) ++ Nat.toDigits 10 k.natAbs := by
    rw [← toList_toString, ← String.toList_inj, text, String.toList_ofList, chars_finite]
  rw [hchars]
  rcases hcases with ⟨hlt, htext⟩ | ⟨hle, hmark⟩
  · rw [htext]
    have hsign : (negative && units != 0) = (k < 0 : Bool) ∧ m = k.natAbs ↔
        k = if negative then -(m : Int) else m := by
      have hne : (units != 0) = (m != 0) := by
        rw [bne, bne, Bool.eq_iff_iff]
        simp [hzero]
      rw [hne]
      cases negative <;> by_cases hneg : k < 0 <;> simp [hneg] <;> omega
    rw [← hsign]
    refine ⟨fun heq => ⟨hlt, signText_toDigits_inj heq⟩, ?_⟩
    rintro ⟨_, hsame, rfl⟩
    rw [hsame]
  · refine ⟨fun heq => ?_, fun hlt => absurd hlt.1 (Nat.not_lt.mpr hle)⟩
    have hmem := List.mem_append_right (signText (negative && units != 0)) hmark
    rw [heq, List.mem_append] at hmem
    rcases hmem with hsign | hdigits
    · exact absurd (eq_of_mem_signText hsign) (by decide)
    · exact absurd hdigits ((areDigits_toDigits _).not_mem rfl)

end Number

end SceneCompiler
