import CText.Proofs.Json.Scalars
import CText.Text.Basic
import Mathlib.Order.Nat
import Mathlib.Tactic.Tauto

/-!
# The order of padded numbers

Numbers that are written with the same number of digits stand in the same order as texts and as
numbers. Texts that begin with such numbers are ordered by these first.
-/

namespace CText.Text

/-- Texts that begin with texts of the same length are ordered by these first. -/
theorem append_lt_append_iff {α : Type} [LT α] {s t u v : List α} (h : s.length = t.length) :
    s ++ u < t ++ v ↔ s < t ∨ s = t ∧ u < v := by
  induction s generalizing t with
  | nil =>
    obtain rfl : t = [] := List.length_eq_zero_iff.1 h.symm
    simp
  | cons c s ih =>
    cases t with
    | nil => cases h
    | cons d t =>
      rw [List.cons_append, List.cons_append, List.cons_lt_cons_iff, List.cons_lt_cons_iff,
        ih (Nat.succ.inj h), List.cons.injEq]
      tauto

/-! ## Digits -/

open Json (digitsValue)

/-- The zeros in front do not count. -/
theorem digitsValue_padded (width n : Nat) : digitsValue (padded width n) = n := by
  have zeros (k : Nat) : digitsValue (List.replicate k '0') = 0 := by
    induction k with
    | zero => rfl
    | succ k ih => exact ih
  rw [padded, digitsValue, List.foldl_append, ← digitsValue, zeros, ← digitsValue,
    Json.digitsValue_toDigits]

theorem padded_injective {width m n : Nat} (h : padded width m = padded width n) : m = n := by
  rw [← digitsValue_padded width m, h, digitsValue_padded]

variable {width m n : Nat}

theorem padded_one (h : n < 10) : padded 1 n = [Nat.digitChar n] := by
  rw [padded, Nat.toDigits_of_lt_base h]
  rfl

/-- The last digit of a number stands behind the others. -/
theorem padded_succ (hwidth : 1 ≤ width) (n : Nat) :
    padded (width + 1) n = padded width (n / 10) ++ [Nat.digitChar (n % 10)] := by
  unfold padded
  dsimp only
  by_cases hn : n < 10
  · obtain ⟨width, rfl⟩ := Nat.exists_eq_add_of_le' hwidth
    rw [Nat.toDigits_of_lt_base hn, Nat.div_eq_of_lt hn, Nat.mod_eq_of_lt hn,
      Nat.toDigits_of_lt_base (by decide)]
    exact congrArg (· ++ [Nat.digitChar n]) List.replicate_succ'
  · rw [Nat.toDigits_of_base_le (by decide) (Nat.not_lt.1 hn), List.length_append,
      List.length_singleton, Nat.add_sub_add_right, List.append_assoc]

theorem digitChar_lt_iff (hm : m < 10) (hn : n < 10) :
    Nat.digitChar m < Nat.digitChar n ↔ m < n := by
  have hall : ∀ m < 10, ∀ n < 10, (Nat.digitChar m < Nat.digitChar n ↔ m < n) := by decide
  exact hall m hm n hn

theorem singleton_lt_iff {c d : Char} : [c] < [d] ↔ c < d := by
  rw [List.cons_lt_cons_iff]
  simp

/-! ## Numbers of one width -/

theorem length_padded (hwidth : 1 ≤ width) (h : n < 10 ^ width) :
    (padded width n).length = width := by
  induction width, hwidth using Nat.le_induction generalizing n with
  | base => rw [padded_one h, List.length_singleton]
  | succ width hwidth ih =>
    rw [Nat.pow_succ] at h
    rw [padded_succ hwidth, List.length_append, ih (by omega), List.length_singleton]

theorem padded_lt_iff (hwidth : 1 ≤ width) (hm : m < 10 ^ width) (hn : n < 10 ^ width) :
    padded width m < padded width n ↔ m < n := by
  induction width, hwidth using Nat.le_induction generalizing m n with
  | base => rw [padded_one hm, padded_one hn, singleton_lt_iff, digitChar_lt_iff hm hn]
  | succ width hwidth ih =>
    rw [Nat.pow_succ] at hm hn
    have hlength : (padded width (m / 10)).length = (padded width (n / 10)).length := by
      rw [length_padded hwidth (by omega), length_padded hwidth (by omega)]
    have hsame : padded width (m / 10) = padded width (n / 10) ↔ m / 10 = n / 10 :=
      ⟨padded_injective, congrArg _⟩
    rw [padded_succ hwidth, padded_succ hwidth, append_lt_append_iff hlength,
      ih (by omega) (by omega), hsame, singleton_lt_iff, digitChar_lt_iff (by omega) (by omega)]
    omega

variable {s t : List Char}

/-- Texts that begin with numbers of one width are ordered by these first. -/
theorem padded_append_lt_iff (hwidth : 1 ≤ width) (hm : m < 10 ^ width)
    (hn : n < 10 ^ width) :
    padded width m ++ s < padded width n ++ t ↔ m < n ∨ m = n ∧ s < t := by
  have hlength : (padded width m).length = (padded width n).length := by
    rw [length_padded hwidth hm, length_padded hwidth hn]
  have hsame : padded width m = padded width n ↔ m = n := ⟨padded_injective, congrArg _⟩
  rw [append_lt_append_iff hlength, padded_lt_iff hwidth hm hn, hsame]

/-- A character that stands in front of both numbers makes no difference. -/
theorem cons_padded_append_lt_iff {c : Char} (hwidth : 1 ≤ width) (hm : m < 10 ^ width)
    (hn : n < 10 ^ width) :
    c :: (padded width m ++ s) < c :: (padded width n ++ t) ↔ m < n ∨ m = n ∧ s < t := by
  rw [List.cons_lt_cons_self, padded_append_lt_iff hwidth hm hn]

end CText.Text
