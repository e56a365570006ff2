import Mathlib.Tactic.Positivity
import Mathlib.Tactic.Ring
import SceneCompiler.Json.Parser
import SceneCompiler.Proofs.Number.Digits

/-!
# Numbers that read back

A decimal is read by its value alone, however many zeros end its digits.  The text of a finite number
therefore reads back as the number, and two numbers with one text are the same up to the sign of zero.
-/

namespace SceneCompiler

namespace Number

theorem nearestUnits_mul {k : Nat} (hk : 0 < k) (p q : Nat) :
    nearestUnits (k * p) (k * q) = nearestUnits p q := by
  simp only [nearestUnits, Nat.mul_div_mul_left p q hk, Nat.mul_assoc k q,
    Nat.mul_div_mul_left p _ hk, Nat.mul_mod_mul_left, Nat.mul_left_comm 2 k,
    Nat.mul_lt_mul_left hk]

theorem nearestUnits_congr {p q p' q' : Nat} (hq : 0 < q) (hq' : 0 < q') (h : p * q' = p' * q) :
    nearestUnits p q = nearestUnits p' q' := by
  rw [← nearestUnits_mul hq' p q, ← nearestUnits_mul hq p' q', Nat.mul_comm q' p, h,
    Nat.mul_comm p' q, Nat.mul_comm q' q]

theorem nearestUnits_one {units : Nat} (h : Representable units) : nearestUnits units 1 = units := by
  obtain ⟨m, hm⟩ := h.2
  simp only [nearestUnits, Nat.div_one, Nat.one_mul]
  generalize Nat.pow 2 (units.log2 - 52) = step at hm ⊢
  subst hm
  rcases Nat.eq_zero_or_pos step with rfl | hstep
  · simp
  · have hlt : 2 * 0 < step := hstep
    rw [Nat.mul_mod_right, if_pos hlt, Nat.mul_div_cancel_left m hstep, Nat.mul_comm]

theorem ofRatio_congr (negative : Bool) {p q p' q' : Nat} (hq : 0 < q) (hq' : 0 < q')
    (h : p * q' = p' * q) : ofRatio negative p q = ofRatio negative p' q' := by
  have hone : p * one * q' = p' * one * q := by
    rw [Nat.mul_right_comm, h, Nat.mul_right_comm]
  rw [ofRatio, ofRatio, nearestUnits_congr hq hq' hone]

end Number

namespace Decimal

theorem digitCount_mul_pow {m : Nat} (hm : 0 < m) (k : Nat) :
    digitCount (m * 10 ^ k) = digitCount m + k := by
  simp [digitCount, toDigits_mul_pow hm, zeros]

theorem toNumber_zero (negative : Bool) (e : Int) :
    toNumber negative ⟨0, e⟩ = Number.ofUnits negative 0 := by
  simp only [toNumber, if_true]

theorem toNumber_eq (negative : Bool) {m : Nat} (hm : m ≠ 0) (e : Int) :
    toNumber negative ⟨m, e⟩ =
      if e + digitCount m > 310 then .infinite negative
      else if e + digitCount m < -330 then Number.ofUnits negative 0
      else Number.ofRatio negative (m * 10 ^ e.toNat) (10 ^ (-e).toNat) := by
  rw [toNumber, if_neg hm]
  cases e with
  | ofNat e => simp
  | negSucc e => simp [Int.neg_negSucc]

theorem toNumber_shift (negative : Bool) {m : Nat} (hm : m ≠ 0) (k : Nat) (e : Int) :
    toNumber negative ⟨m * 10 ^ k, e⟩ = toNumber negative ⟨m, e + k⟩ := by
  have hne : m * 10 ^ k ≠ 0 := Nat.mul_ne_zero hm (by positivity)
  have hplace : e + (digitCount (m * 10 ^ k) : Int) = e + k + digitCount m := by
    rw [digitCount_mul_pow (Nat.pos_of_ne_zero hm)]
    push_cast
    ring
  have hratio : Number.ofRatio negative (m * 10 ^ k * 10 ^ e.toNat) (10 ^ (-e).toNat) =
      Number.ofRatio negative (m * 10 ^ (e + k).toNat) (10 ^ (-(e + k)).toNat) := by
    refine Number.ofRatio_congr negative (by positivity) (by positivity) ?_
    have hpowers : k + e.toNat + (-(e + k)).toNat = (e + k).toNat + (-e).toNat := by omega
    calc m * 10 ^ k * 10 ^ e.toNat * 10 ^ (-(e + k)).toNat
        = m * 10 ^ (k + e.toNat + (-(e + k)).toNat) := by ring
      _ = m * 10 ^ ((e + k).toNat + (-e).toNat) := by rw [hpowers]
      _ = m * 10 ^ (e + k).toNat * 10 ^ (-e).toNat := by ring
  rw [toNumber_eq negative hne, toNumber_eq negative hm, hplace, hratio]

theorem strip_spec (d : Decimal) :
    ∃ k : Nat, d.digits = d.strip.digits * 10 ^ k ∧ d.strip.exponent = d.exponent + k := by
  obtain ⟨front, hfront⟩ := exists_eq_mul_pow d.digits
  refine ⟨_, ?_, rfl⟩
  have hdivides :
      Nat.pow 10 ((Nat.toDigits 10 d.digits).reverse.takeWhile (· == '0')).length ∣ d.digits :=
    ⟨front, by rw [Nat.mul_comm]; exact hfront⟩
  exact (Nat.div_mul_cancel hdivides).symm

theorem strip_digits_ne {d : Decimal} (h : d.digits ≠ 0) : d.strip.digits ≠ 0 := by
  obtain ⟨k, hdigits, _⟩ := strip_spec d
  rintro hzero
  rw [hzero, Nat.zero_mul] at hdigits
  exact h hdigits

theorem toNumber_strip (negative : Bool) {d : Decimal} (h : d.digits ≠ 0) :
    d.strip.toNumber negative = d.toNumber negative := by
  obtain ⟨k, hdigits, hexponent⟩ := strip_spec d
  have hshift := toNumber_shift negative (strip_digits_ne h) k d.exponent
  rw [← hdigits, ← hexponent] at hshift
  exact hshift.symm

/-! ## The shortest decimal -/

theorem digitCount_le_iff {m k : Nat} (hk : 0 < k) : digitCount m ≤ k ↔ m < 10 ^ k :=
  Nat.length_toDigits_le_iff (by decide) hk

theorem digitCount_exact {units : Nat} (h : Representable units) (hne : units ≠ 0) :
    743 < digitCount (units * Nat.pow 5 1074) ∧ digitCount (units * Nat.pow 5 1074) ≤ 1384 := by
  have hlower : 10 ^ 743 ≤ Nat.pow 5 1074 := by decide +kernel
  have hupper : Nat.pow 2 2098 * Nat.pow 5 1074 ≤ 10 ^ 1384 := by decide +kernel
  have hpos : 0 < Nat.pow 5 1074 := by decide +kernel
  constructor
  · have hle := Nat.le_trans hlower (Nat.le_mul_of_pos_left _ (Nat.pos_of_ne_zero hne))
    exact Nat.not_le.mp fun hcount => Nat.not_lt.mpr hle ((digitCount_le_iff (by decide)).mp hcount)
  · have hlt := Nat.lt_of_lt_of_le (Nat.mul_lt_mul_of_pos_right h.1 hpos) hupper
    exact (digitCount_le_iff (by decide)).mpr hlt

theorem toNumber_exact {units : Nat} (h : Representable units) (hne : units ≠ 0) :
    toNumber false ⟨units * Nat.pow 5 1074, -1074⟩ = Number.ofUnits false units := by
  have htens : Nat.pow 5 1074 * Number.one = 10 ^ (- -1074 : Int).toNat := by decide +kernel
  have hpos : 0 < 10 ^ (- -1074 : Int).toNat := by decide +kernel
  have hfive : Nat.pow 5 1074 ≠ 0 := by decide +kernel
  obtain ⟨hlower, hupper⟩ := digitCount_exact h hne
  generalize Nat.pow 5 1074 = fives at *
  rw [toNumber_eq false (Nat.mul_ne_zero hne hfive), if_neg (by omega), if_neg (by omega),
    Number.ofRatio]
  generalize 10 ^ (- -1074 : Int).toNat = tens at *
  have hvalue : units * fives * 10 ^ (-1074 : Int).toNat * Number.one * 1 = units * tens := by
    rw [Int.toNat_of_nonpos (by decide), Nat.pow_zero, Nat.mul_one, Nat.mul_one, Nat.mul_assoc,
      htens]
  rw [Number.nearestUnits_congr hpos Nat.one_pos hvalue, Number.nearestUnits_one h]

theorem readsBack_of_neighbour? {units p q : Nat} {power : Int} {d : Decimal}
    (h : neighbour? units p q power = some d) : readsBack units d = true := by
  unfold neighbour? at h
  extract_lets below above r belowFirst first second at h
  split at h
  · rename_i hfirst
    exact Option.some.inj h ▸ hfirst
  · split at h
    · rename_i hsecond
      exact Option.some.inj h ▸ hsecond
    · cases h

theorem toNumber_shortest {units : Nat} (h : Representable units) (hne : units ≠ 0) :
    (shortest units).toNumber false = Number.ofUnits false units := by
  rw [shortest]
  cases hfound : (List.range 17).findSome? fun count => shortestOf? units (count + 1) with
  | none => exact toNumber_exact h hne
  | some d =>
    obtain ⟨count, _, hcount⟩ := List.exists_of_findSome?_eq_some hfound
    exact beq_iff_eq.mp (readsBack_of_neighbour? hcount)

end Decimal

/-! ## Texts of numbers -/

section Text

open Json Scientific

/-- A text is made of the digits of a decimal, with or without a point, and of its exponent. -/
def Spells (text : List Char) (d : Decimal) : Prop :=
  ∃ whole rest fraction rest' exponent, wholePart? text = some (whole, rest) ∧
    takeFraction? rest = some (fraction, rest') ∧ exponentPart? rest' = some (exponent, []) ∧
    d = ⟨natOfDigits (whole ++ fraction), exponent - fraction.length⟩

theorem wholePart?_minus (text : List Char) : wholePart? ('-' :: text) = none :=
  rfl

theorem number?_of_spells (negative : Bool) {text : List Char} {d : Decimal} (h : Spells text d) :
    number? (if negative then '-' :: text else text) = some (d.toNumber negative, []) := by
  obtain ⟨whole, rest, fraction, rest', exponent, hwhole, hfraction, hexponent, rfl⟩ := h
  rw [number?.eq_def]
  split
  rename_i sign unsigned hsign
  have hparts : sign = negative ∧ unsigned = text := by
    cases negative with
    | true =>
      cases hsign
      exact ⟨rfl, rfl⟩
    | false =>
      rw [if_neg Bool.false_ne_true] at hsign
      split at hsign
      · rw [wholePart?_minus] at hwhole
        cases hwhole
      · cases hsign
        exact ⟨rfl, rfl⟩
  obtain ⟨rfl, rfl⟩ := hparts
  simp only [hwhole, hfraction, hexponent, Option.map_some]

theorem wholePart?_digits {digits : List Char} (rest : List Char) (hdigits : AreDigits digits)
    (hne : digits ≠ []) (hzero : digits.head? ≠ some '0') (hrest : rest.takeWhile Char.isDigit = []) :
    wholePart? (digits ++ rest) = some (digits, rest) := by
  obtain ⟨c, more, rfl⟩ := List.exists_cons_of_ne_nil hne
  have hc : c ≠ '0' := fun h => hzero (by rw [h]; rfl)
  have hdrop : rest.dropWhile Char.isDigit = rest := by
    have hsplit := List.takeWhile_append_dropWhile (p := Char.isDigit) (l := rest)
    rwa [hrest, List.nil_append] at hsplit
  rw [wholePart?.eq_def]
  split
  · rename_i heq
    exact absurd (List.cons.inj heq).1 hc
  · simp only [hdigits.takeWhile_append, hdigits.dropWhile_append, hrest, hdrop, List.append_nil]
    rfl

theorem takeFraction?_point {digits : List Char} (rest : List Char) (hdigits : AreDigits digits)
    (hne : digits ≠ []) (hrest : rest.takeWhile Char.isDigit = []) :
    takeFraction? ('.' :: digits ++ rest) = some (digits, rest) := by
  have hdrop : rest.dropWhile Char.isDigit = rest := by
    have hsplit := List.takeWhile_append_dropWhile (p := Char.isDigit) (l := rest)
    rwa [hrest, List.nil_append] at hsplit
  simp only [takeFraction?, List.cons_append, hdigits.takeWhile_append, hdigits.dropWhile_append,
    hrest, hdrop, List.append_nil]
  rw [if_neg (by simpa using hne)]

theorem takeSign_mark (e : Int) (digits : List Char) :
    takeSign ((if e < 0 then '-' else '+') :: digits) =
      ([if e < 0 then '-' else '+'], digits) := by
  split <;> rfl

theorem signed_mark (e : Int) :
    (if [if e < 0 then '-' else '+'] == ['-'] then -(e.natAbs : Int) else e.natAbs) = e := by
  by_cases he : e < 0
  · rw [if_pos he, if_pos (by decide)]
    omega
  · rw [if_neg he, if_neg (by decide)]
    omega

theorem exponentPart?_mark (e : Int) :
    exponentPart? ('e' :: (if e < 0 then '-' else '+') :: Nat.toDigits 10 e.natAbs) =
      some (e, []) := by
  have hdigits := areDigits_toDigits e.natAbs
  have htake := hdigits.takeWhile_append []
  have hdrop := hdigits.dropWhile_append []
  rw [List.append_nil, List.takeWhile_nil, List.append_nil] at htake
  rw [List.append_nil, List.dropWhile_nil] at hdrop
  simp only [exponentPart?, takeSign_mark, htake, hdrop, natOfDigits_toDigits, signed_mark]
  rw [if_pos (by decide), if_neg (by simp [Nat.toDigits_ne_nil])]

section Layouts

variable {digits : List Char} (hdigits : AreDigits digits) (hne : digits ≠ [])
include hdigits hne

theorem spells_padded (hzero : digits.head? ≠ some '0') (k : Nat) :
    Spells (digits ++ zeros k) ⟨natOfDigits digits * 10 ^ k, 0⟩ := by
  have hhead : (digits ++ zeros k).head? ≠ some '0' := by
    rwa [List.head?_append, Option.or_of_isSome (by simpa using hne)]
  have hwhole := wholePart?_digits [] (areDigits_append.mpr ⟨hdigits, areDigits_zeros k⟩)
    (by simp [hne]) hhead rfl
  rw [List.append_nil] at hwhole
  refine ⟨_, _, [], [], 0, hwhole, rfl, rfl, ?_⟩
  rw [List.append_nil, natOfDigits_append_zeros]
  rfl

theorem spells_point (hzero : digits.head? ≠ some '0') {k : Nat} (hk : 0 < k)
    (hlt : k < digits.length) :
    Spells (digits.take k ++ '.' :: digits.drop k) ⟨natOfDigits digits, k - digits.length⟩ := by
  have htake : digits.take k ≠ [] := by
    simp [List.take_eq_nil_iff, hne]
    omega
  have hhead : (digits.take k).head? ≠ some '0' := by
    rwa [List.head?_take, if_neg (by omega)]
  have hdrop : digits.drop k ≠ [] := by
    simpa using hlt
  have hwhole := wholePart?_digits ('.' :: digits.drop k)
    (hdigits.sublist (List.take_sublist k digits)) htake hhead rfl
  have hfraction := takeFraction?_point []
    (hdigits.sublist (List.drop_sublist k digits)) hdrop rfl
  rw [List.append_nil] at hfraction
  refine ⟨_, _, _, [], 0, hwhole, hfraction, rfl, ?_⟩
  rw [List.take_append_drop, List.length_drop]
  congr 1
  omega

theorem spells_small (k : Nat) :
    Spells ('0' :: '.' :: zeros k ++ digits) ⟨natOfDigits digits, -(k + digits.length)⟩ := by
  have hfraction := takeFraction?_point []
    (areDigits_append.mpr ⟨areDigits_zeros k, hdigits⟩) (by simp [hne]) rfl
  rw [List.append_nil] at hfraction
  refine ⟨['0'], _, _, [], 0, rfl, hfraction, rfl, ?_⟩
  have hvalue : natOfDigits (['0'] ++ (zeros k ++ digits)) = natOfDigits digits :=
    natOfDigits_zeros_append digits (k + 1)
  rw [hvalue, List.length_append]
  simp [zeros]

theorem spells_mark (hzero : digits.head? ≠ some '0') {fraction : List Char}
    (hfraction : AreDigits fraction) (e : Int) :
    Spells (digits ++ ((if fraction = [] then [] else '.' :: fraction) ++
      'e' :: (if e < 0 then '-' else '+') :: Nat.toDigits 10 e.natAbs))
      ⟨natOfDigits (digits ++ fraction), e - fraction.length⟩ := by
  generalize hmark : 'e' :: (if e < 0 then '-' else '+') :: Nat.toDigits 10 e.natAbs = mark
  have hstop : mark.takeWhile Char.isDigit = [] := by
    rw [← hmark]
    rfl
  have hexponent : exponentPart? mark = some (e, []) := by
    rw [← hmark]
    exact exponentPart?_mark e
  split
  · rename_i hempty
    subst hempty
    refine ⟨_, _, _, _, e, wholePart?_digits _ hdigits hne hzero hstop, ?_, hexponent, rfl⟩
    rw [← hmark]
    rfl
  · rename_i hnonempty
    exact ⟨_, _, _, _, e, wholePart?_digits _ hdigits hne hzero rfl,
      takeFraction?_point _ hfraction hnonempty hstop, hexponent, rfl⟩

end Layouts

def writtenOut (digits : List Char) (place : Int) : List Char :=
  if place ≤ 0 then '0' :: '.' :: zeros (-place).toNat ++ digits
  else if (digits.length : Int) ≤ place then digits ++ zeros (place - digits.length).toNat
  else digits.take place.toNat ++ '.' :: digits.drop place.toNat

/-- Digits are written out, or with an exponent where the point is far away. -/
theorem positional_cases {digits : List Char} (hne : digits ≠ []) (place : Int) :
    (-6 < place ∧ place ≤ 21) ∧ positional digits place = writtenOut digits place ∨
      (place ≤ -6 ∨ 21 < place) ∧ ∃ first others, digits = first :: others ∧
        positional digits place = [first] ++ ((if others = [] then [] else '.' :: others) ++
          'e' :: (if place - 1 < 0 then '-' else '+') :: Nat.toDigits 10 (place - 1).natAbs) := by
  obtain ⟨first, others, rfl⟩ := List.exists_cons_of_ne_nil hne
  have hcount : (0 : Int) < (first :: others).length := by simp
  simp only [positional, writtenOut, Bool.and_eq_true, decide_eq_true_eq]
  generalize ((first :: others).length : Int) = count at hcount ⊢
  by_cases hplace : -6 < place ∧ place ≤ 21
  · refine .inl ⟨hplace, ?_⟩
    split
    · rw [if_neg (by omega), if_pos (by omega)]
    · split
      · rw [if_neg (by omega), if_neg (by omega)]
      · rw [if_pos (by omega), if_pos (by omega)]
  · refine .inr ⟨by omega, first, others, rfl, ?_⟩
    rw [if_neg (by omega), if_neg (by omega), if_neg (by omega), ← List.append_assoc]
    cases others <;> rfl

theorem spells_writtenOut {m : Nat} (hm : m ≠ 0) (e : Int) :
    ∃ d, Spells (writtenOut (Nat.toDigits 10 m) (e + (Nat.toDigits 10 m).length)) d ∧
      ∀ negative, d.toNumber negative = Decimal.toNumber negative ⟨m, e⟩ := by
  have hdigits := areDigits_toDigits m
  have hzero := head?_toDigits (Nat.pos_of_ne_zero hm)
  have hvalue := natOfDigits_toDigits m
  have hne : Nat.toDigits 10 m ≠ [] := Nat.toDigits_ne_nil
  generalize Nat.toDigits 10 m = digits at *
  unfold writtenOut
  split
  · refine ⟨_, spells_small hdigits hne _, fun negative => ?_⟩
    rw [hvalue]
    congr 2
    omega
  · split
    · refine ⟨_, spells_padded hdigits hne hzero _, fun negative => ?_⟩
      rw [hvalue, Decimal.toNumber_shift negative hm]
      congr 2
      omega
    · refine ⟨_, spells_point hdigits hne hzero (by omega) (by omega), fun negative => ?_⟩
      rw [hvalue]
      congr 2
      omega

theorem spells_positional {m : Nat} (hm : m ≠ 0) (e : Int) :
    ∃ d, Spells (positional (Nat.toDigits 10 m) (e + (Nat.toDigits 10 m).length)) d ∧
      ∀ negative, d.toNumber negative = Decimal.toNumber negative ⟨m, e⟩ := by
  rcases positional_cases Nat.toDigits_ne_nil (e + (Nat.toDigits 10 m).length) with
    ⟨_, hout⟩ | ⟨_, first, others, hcons, hexponent⟩
  · rw [hout]
    exact spells_writtenOut hm e
  · have hzero := head?_toDigits (Nat.pos_of_ne_zero hm)
    have hvalue := natOfDigits_toDigits m
    have hdigits := areDigits_toDigits m
    rw [hexponent]
    rw [hcons] at hzero hvalue hdigits ⊢
    obtain ⟨hfirst, hothers⟩ :=
      areDigits_append.mp (show AreDigits ([first] ++ others) from hdigits)
    refine ⟨_, spells_mark hfirst (List.cons_ne_nil _ _) hzero hothers _, fun negative => ?_⟩
    rw [List.singleton_append, hvalue, List.length_cons]
    congr 2
    omega

end Text

namespace Number

theorem ofUnits_eq_finite {negative : Bool} {units : Nat} (h : Representable units) :
    ofUnits negative units = .finite negative units h :=
  dif_pos h

theorem eq_of_ofUnits {negative : Bool} {k units : Nat} (h : Representable units)
    (heq : ofUnits negative k = ofUnits negative units) : k = units := by
  rw [ofUnits_eq_finite h, ofUnits] at heq
  split at heq
  · exact (Number.finite.inj heq).2
  · cases heq

end Number

namespace Decimal

theorem toNumber_cases (d : Decimal) :
    (∀ negative, d.toNumber negative = .infinite negative) ∨
      ∃ k, ∀ negative, d.toNumber negative = Number.ofUnits negative k := by
  obtain ⟨m, e⟩ := d
  by_cases hm : m = 0
  · subst hm
    exact .inr ⟨0, fun negative => toNumber_zero negative e⟩
  · simp only [toNumber_eq _ hm]
    split
    · exact .inl fun _ => rfl
    · split
      · exact .inr ⟨0, fun _ => rfl⟩
      · exact .inr ⟨_, fun _ => rfl⟩

theorem toNumber_of_toNumber_false {d : Decimal} {units : Nat} (h : Representable units)
    (hread : d.toNumber false = Number.ofUnits false units) (negative : Bool) :
    d.toNumber negative = Number.ofUnits negative units := by
  rcases d.toNumber_cases with hinfinite | ⟨k, hk⟩
  · rw [hinfinite, Number.ofUnits_eq_finite h] at hread
    cases hread
  · rw [hk] at hread
    rw [hk, Number.eq_of_ofUnits h hread]

theorem strip_shortest {units : Nat} (h : Representable units) (hne : units ≠ 0) :
    (shortest units).strip.digits ≠ 0 ∧
      ∀ negative, (shortest units).strip.toNumber negative = Number.ofUnits negative units := by
  have hread := toNumber_of_toNumber_false h (toNumber_shortest h hne)
  have hdigits : (shortest units).digits ≠ 0 := by
    intro hempty
    have hfalse := hread false
    rw [toNumber, if_pos hempty] at hfalse
    exact hne (Number.eq_of_ofUnits h hfalse).symm
  exact ⟨strip_digits_ne hdigits, fun negative => (toNumber_strip negative hdigits).trans (hread negative)⟩

end Decimal

namespace Number

theorem magnitudeText_eq {units : Nat} (hne : units ≠ 0) :
    magnitudeText units =
      positional (Nat.toDigits 10 (Decimal.shortest units).strip.digits)
        ((Decimal.shortest units).strip.exponent +
          (Nat.toDigits 10 (Decimal.shortest units).strip.digits).length) := by
  rw [magnitudeText, if_neg hne]

theorem spells_magnitudeText {units : Nat} (h : Representable units) :
    ∃ d, Spells (magnitudeText units) d ∧
      ∀ negative, d.toNumber negative = ofUnits negative units := by
  by_cases hzero : units = 0
  · subst hzero
    exact ⟨⟨0, 0⟩, ⟨['0'], [], [], [], 0, rfl, rfl, rfl, rfl⟩,
      fun negative => Decimal.toNumber_zero _ _⟩
  · obtain ⟨hdigits, hread⟩ := Decimal.strip_shortest h hzero
    obtain ⟨d, hspells, hsame⟩ := spells_positional hdigits (Decimal.shortest units).strip.exponent
    rw [magnitudeText_eq hzero]
    exact ⟨d, hspells, fun negative => (hsame negative).trans (hread negative)⟩

theorem number?_chars (negative : Bool) {units : Nat} (h : Representable units) :
    Json.number? ((Number.finite negative units h).chars false) =
      some ((Number.finite negative units h).written, []) := by
  obtain ⟨d, hspells, hread⟩ := spells_magnitudeText h
  have hnumber := number?_of_spells (negative && units != 0) hspells
  rw [hread] at hnumber
  rw [chars, Bool.or_false]
  exact hnumber

end Number

end SceneCompiler
