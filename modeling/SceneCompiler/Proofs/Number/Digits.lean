import Mathlib.Algebra.Ring.Nat
import Mathlib.Data.List.TakeWhile
import SceneCompiler.Number.Scientific

/-!
# Decimal digits

Texts of digits, and the natural numbers that they spell.
-/

namespace SceneCompiler

def AreDigits (text : List Char) : Prop :=
  ∀ c ∈ text, c.isDigit = true

theorem areDigits_append {a b : List Char} : AreDigits (a ++ b) ↔ AreDigits a ∧ AreDigits b :=
  List.forall_mem_append

theorem areDigits_toDigits (k : Nat) : AreDigits (Nat.toDigits 10 k) :=
  fun _ hc => Nat.isDigit_of_mem_toDigits (by decide) (by decide) hc

theorem areDigits_zeros (k : Nat) : AreDigits (zeros k) := by
  intro c hc
  rw [List.eq_of_mem_replicate hc]
  rfl

namespace AreDigits

variable {digits : List Char} (h : AreDigits digits)

include h

theorem isAlphanum : ∀ c ∈ digits, c.isAlphanum = true := by
  intro c hc
  simp [Char.isAlphanum, h c hc]

theorem not_mem {c : Char} (hc : c.isDigit = false) : c ∉ digits := by
  intro hmem
  rw [h c hmem] at hc
  cases hc

theorem sublist {part : List Char} (hpart : part.Sublist digits) : AreDigits part :=
  fun c hc => h c (hpart.subset hc)

theorem takeWhile_append (rest : List Char) :
    (digits ++ rest).takeWhile Char.isDigit = digits ++ rest.takeWhile Char.isDigit :=
  List.takeWhile_append_of_pos h

theorem dropWhile_append (rest : List Char) :
    (digits ++ rest).dropWhile Char.isDigit = rest.dropWhile Char.isDigit :=
  List.dropWhile_append_of_pos h

end AreDigits

namespace Scientific

theorem takeSign_digits {whole : List Char} (hne : whole ≠ []) (hwhole : AreDigits whole)
    (rest : List Char) : takeSign (whole ++ rest) = ([], whole ++ rest) := by
  cases whole with
  | nil => exact absurd rfl hne
  | cons c whole =>
    have hc := hwhole c List.mem_cons_self
    rw [List.cons_append, takeSign] <;> (intro _ heq; cases heq; cases hc)

def IsSign (text : List Char) : Prop :=
  text = [] ∨ text = ['+'] ∨ text = ['-']

theorem takeSign_append {sign whole : List Char} (hsign : IsSign sign) (hne : whole ≠ [])
    (hwhole : AreDigits whole) (rest : List Char) :
    takeSign (sign ++ (whole ++ rest)) = (sign, whole ++ rest) := by
  rcases hsign with rfl | rfl | rfl
  · exact takeSign_digits hne hwhole rest
  · rfl
  · rfl

theorem takeSign_spec (text : List Char) :
    IsSign (takeSign text).1 ∧ (takeSign text).1 ++ (takeSign text).2 = text := by
  unfold takeSign
  split
  · exact ⟨.inr (.inl rfl), rfl⟩
  · exact ⟨.inr (.inr rfl), rfl⟩
  · exact ⟨.inl rfl, rfl⟩

theorem takeFraction?_spec {text fraction rest : List Char}
    (h : takeFraction? text = some (fraction, rest)) :
    AreDigits fraction ∧ text = (if fraction = [] then [] else '.' :: fraction) ++ rest := by
  unfold takeFraction? at h
  split at h
  · dsimp only at h
    split at h
    · cases h
    · rename_i hne
      cases h
      refine ⟨fun c hc => List.mem_takeWhile_imp hc, ?_⟩
      rw [if_neg (by simpa using hne), List.cons_append, List.takeWhile_append_dropWhile]
  · cases h
    exact ⟨by simp [AreDigits], by simp⟩

theorem natOfDigits_eq (digits : List Char) : natOfDigits digits = Nat.ofDigitChars 10 digits 0 :=
  rfl

@[simp] theorem natOfDigits_toDigits (m : Nat) : natOfDigits (Nat.toDigits 10 m) = m :=
  Nat.ofDigitChars_ten_toDigits

theorem natOfDigits_append (a b : List Char) :
    natOfDigits (a ++ b) = natOfDigits a * 10 ^ b.length + natOfDigits b := by
  rw [natOfDigits_eq, Nat.ofDigitChars_append, Nat.ofDigitChars_eq_ofDigitChars_zero, Nat.mul_comm]
  rfl

theorem natOfDigits_append_zeros (digits : List Char) (k : Nat) :
    natOfDigits (digits ++ zeros k) = natOfDigits digits * 10 ^ k := by
  simp only [natOfDigits_eq, Nat.ofDigitChars_append, zeros, Nat.ofDigitChars_replicate_zero]
  exact Nat.mul_comm _ _

theorem natOfDigits_zeros_append (digits : List Char) (k : Nat) :
    natOfDigits (zeros k ++ digits) = natOfDigits digits := by
  simp [natOfDigits_eq, Nat.ofDigitChars_append, zeros]

end Scientific

theorem toDigits_mul_pow {m : Nat} (hm : 0 < m) (k : Nat) :
    Nat.toDigits 10 (m * 10 ^ k) = Nat.toDigits 10 m ++ zeros k := by
  induction k with
  | zero => simp [zeros]
  | succ k ih =>
    have hpos : 0 < m * 10 ^ k := Nat.mul_pos hm (Nat.pow_pos (by decide))
    have hdigit := Nat.toDigits_append_toDigits (b := 10) (d := 0) (by decide) hpos (by decide)
    rw [ih, Nat.toDigits_zero] at hdigit
    rw [Nat.pow_succ, ← Nat.mul_assoc, Nat.mul_comm _ 10, ← Nat.add_zero (10 * _), ← hdigit]
    simp [zeros, List.replicate_succ']

theorem head?_toDigits {m : Nat} (hm : 0 < m) : (Nat.toDigits 10 m).head? ≠ some '0' := by
  induction m using Nat.strongRecOn with
  | ind m ih =>
    by_cases hlt : m < 10
    · rw [Nat.toDigits_of_lt_base hlt]
      simp
      omega
    · obtain ⟨c, rest, hcons⟩ :=
        List.exists_cons_of_ne_nil (Nat.toDigits_ne_nil (n := m / 10) (b := 10))
      have hfirst := ih (m / 10) (by omega) (by omega)
      rw [hcons] at hfirst
      rw [Nat.toDigits_of_base_le (by decide) (by omega), hcons]
      exact hfirst

theorem exists_eq_mul_pow (m : Nat) :
    ∃ front, m = front * 10 ^ ((Nat.toDigits 10 m).reverse.takeWhile (· == '0')).length := by
  generalize htail : (Nat.toDigits 10 m).reverse.takeWhile (· == '0') = tail
  have hzeros : tail = zeros tail.length := by
    refine List.eq_replicate_of_mem fun c hc => ?_
    rw [← htail] at hc
    simpa using List.mem_takeWhile_imp hc
  obtain ⟨front, hfront⟩ :=
    List.takeWhile_prefix (p := (· == '0')) (l := (Nat.toDigits 10 m).reverse)
  refine ⟨Scientific.natOfDigits front.reverse, ?_⟩
  have hsplit : Nat.toDigits 10 m = front.reverse ++ zeros tail.length := by
    rw [← List.reverse_reverse (Nat.toDigits 10 m), ← hfront, htail, hzeros]
    simp [zeros]
  rw [← Scientific.natOfDigits_append_zeros, ← hsplit, Scientific.natOfDigits_toDigits]

end SceneCompiler
