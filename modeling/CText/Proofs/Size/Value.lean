import CText.Proofs.Size.Grammar
import CText.Size.Parser
import Mathlib.Algebra.Order.Floor.Semifield
import Mathlib.Data.Rat.Floor
import Mathlib.Tactic.Linarith

/-!
# What sizes are worth

The value of a number is a rational number, and every digit of it counts. A summand is worth the
whole bytes in its number of units, and a size the sum of its summands, without any bound. The
reader works the bytes of a fraction out from the last digit inward and drops what is left over at
every digit; all the same it drops no more than a single rounding down would.
-/

namespace CText.Size

variable {marks : Marks} {base : Base}

def numeral (digits : List UInt8) : Nat := digits.foldl (fun n c => n * 10 + digit c) 0

/-- The number that decimal digits denote behind a decimal point. -/
def fractionValue : List UInt8 → ℚ
  | [] => 0
  | c :: rest => (digit c + fractionValue rest) / 10

def Number.value (n : Number marks) : ℚ := numeral n.digits + fractionValue n.fraction

def Summand.value (base : Base) : Summand marks → Nat
  | bare number => ⌊number.value⌋₊
  | measured number _ unit _ => ⌊number.value * unit.factor base⌋₊

def Summands.value (base : Base) (t : Summands marks) : Nat :=
  (t.toList.map (Summand.value base)).sum

def SizeText.value (base : Base) (t : SizeText marks) : Nat := t.summands.value base

theorem digit_le_nine {c : UInt8} (hc : Ascii.isDigit c = true) : digit c ≤ 9 := by
  simp only [Ascii.isDigit, Bool.and_eq_true, decide_eq_true_eq, UInt8.le_iff_toNat_le] at hc
  have hnine : (57 : UInt8).toNat = 57 := rfl
  rw [digit]
  omega

theorem fractionValue_nonneg (digits : List UInt8) : 0 ≤ fractionValue digits := by
  induction digits with
  | nil => exact le_rfl
  | cons c rest ih =>
    rw [fractionValue]
    positivity

theorem fractionValue_lt_one {digits : List UInt8}
    (h : ∀ c ∈ digits, Ascii.isDigit c = true) : fractionValue digits < 1 := by
  induction digits with
  | nil => exact one_pos
  | cons c rest ih =>
    have hrest : fractionValue rest < 1 := ih fun d hd => h d (List.mem_cons_of_mem _ hd)
    have hc : (digit c : ℚ) ≤ 9 := by exact_mod_cast digit_le_nine (h c List.mem_cons_self)
    rw [fractionValue, div_lt_one (by norm_num)]
    linarith

/-- Rounding down at every digit is rounding down once. -/
theorem scaleFraction_eq_floor (multiplier : Nat) (digits : List UInt8) :
    scaleFraction multiplier digits = ⌊fractionValue digits * multiplier⌋₊ := by
  induction digits with
  | nil => simp [scaleFraction, fractionValue]
  | cons c rest ih =>
    have hrest : 0 ≤ fractionValue rest * multiplier :=
      mul_nonneg (fractionValue_nonneg rest) (Nat.cast_nonneg _)
    calc scaleFraction multiplier (c :: rest)
        = (⌊fractionValue rest * multiplier⌋₊ + digit c * multiplier) / 10 := by
          rw [← ih, Nat.add_comm]
          rfl
      _ = ⌊fractionValue rest * multiplier + (digit c * multiplier : Nat)⌋₊ / 10 := by
          rw [Nat.floor_add_natCast hrest]
      _ = ⌊(fractionValue rest * multiplier + (digit c * multiplier : Nat)) / (10 : Nat)⌋₊ := by
          rw [Nat.floor_div_natCast]
      _ = ⌊fractionValue (c :: rest) * multiplier⌋₊ := by
          rw [fractionValue]
          push_cast
          congr 1
          ring

/-- A number of units is as many whole bytes as its whole units and the bytes of its fraction. -/
theorem Number.floor_value_mul (n : Number marks) (multiplier : Nat) :
    ⌊n.value * multiplier⌋₊ =
      numeral n.digits * multiplier + scaleFraction multiplier n.fraction := by
  have hfraction : 0 ≤ fractionValue n.fraction * multiplier :=
    mul_nonneg (fractionValue_nonneg _) (Nat.cast_nonneg _)
  have hvalue : n.value * multiplier =
      fractionValue n.fraction * multiplier + (numeral n.digits * multiplier : Nat) := by
    rw [Number.value]
    push_cast
    ring
  rw [hvalue, Nat.floor_add_natCast hfraction, scaleFraction_eq_floor, Nat.add_comm]

/-- The fraction of a single byte is dropped. -/
theorem Number.floor_value (n : Number marks) : ⌊n.value⌋₊ = numeral n.digits := by
  have hzero : ⌊fractionValue n.fraction⌋₊ = 0 :=
    Nat.floor_eq_zero.2 (fractionValue_lt_one n.fraction_digits)
  rw [Number.value, add_comm, Nat.floor_add_natCast (fractionValue_nonneg _), hzero, Nat.zero_add]

end CText.Size
