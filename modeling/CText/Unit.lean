import CText.Ascii

/-!
# Code units

A string is a run of code units that ends at the first unit zero. Units are bytes, or 32-bit wide
units. The routines on strings and buffers are written once for both, and use of a unit only what
the class below offers.
-/

namespace CText

/-- What the string routines need to know of a unit. -/
class CodeUnit (α : Type) where
  /-- The terminator. -/
  nul : α
  /-- The unit as an unsigned number. -/
  value : α → Nat
  /-- The number that comparisons subtract. -/
  signed : α → Int
  /-- Turns the capital ASCII letters into small ones. -/
  lower : α → α
  value_nul : value nul = 0
  value_injective : ∀ a b, value a = value b → a = b
  signed_injective : ∀ a b, signed a = signed b → a = b
  lower_eq_nul : ∀ a, lower a = nul → a = nul
  lower_nul : lower nul = nul
  lower_lower : ∀ a, lower (lower a) = lower a

/-- Checks a property of bytes on all of them, by their two hexadecimal digits. -/
theorem byte_induction {P : UInt8 → Prop}
    (h : ∀ m < 16, ∀ n < 16, P (UInt8.ofNat (16 * m + n))) (a : UInt8) : P a := by
  have hlt := a.toNat_lt
  have ha := h (a.toNat / 16) (by omega) (a.toNat % 16) (by omega)
  rwa [Nat.div_add_mod, UInt8.ofNat_toNat] at ha

/-- Checks a property of the bytes of a text on each of them. -/
theorem forall_mem_of_all {P : UInt8 → Prop} [DecidablePred P] {s : List UInt8}
    (h : (s.all fun b => decide (P b)) = true) : ∀ b ∈ s, P b := by
  simpa using h

instance : CodeUnit UInt8 where
  nul := 0
  value a := a.toNat
  signed a := a.toNat
  lower := Ascii.lower
  value_nul := rfl
  value_injective _ _ := UInt8.toNat_inj.1
  signed_injective _ _ h := UInt8.toNat_inj.1 (Int.ofNat.inj h)
  lower_eq_nul := byte_induction (by decide)
  lower_nul := by decide
  lower_lower := byte_induction (by decide)

/-- A wide unit read as a signed 32-bit number. -/
def signedWide (a : UInt32) : Int :=
  if a.toNat < 2147483648 then a.toNat else a.toNat - 4294967296

def lowerWide (a : UInt32) : UInt32 :=
  if 65 ≤ a.toNat ∧ a.toNat ≤ 90 then a + 32 else a

theorem lowerWide_toNat (a : UInt32) :
    (lowerWide a).toNat = if 65 ≤ a.toNat ∧ a.toNat ≤ 90 then a.toNat + 32 else a.toNat := by
  unfold lowerWide
  split
  · rw [UInt32.toNat_add]
    have : (32 : UInt32).toNat = 32 := rfl
    omega
  · rfl

instance : CodeUnit UInt32 where
  nul := 0
  value a := a.toNat
  signed := signedWide
  lower := lowerWide
  value_nul := rfl
  value_injective _ _ := UInt32.toNat_inj.1
  signed_injective a b h := by
    have ha := a.toNat_lt
    have hb := b.toNat_lt
    unfold signedWide at h
    apply UInt32.toNat_inj.1
    split at h <;> split at h <;> omega
  lower_eq_nul a h := by
    have ha := lowerWide_toNat a
    rw [h] at ha
    apply UInt32.toNat_inj.1
    have : (0 : UInt32).toNat = 0 := rfl
    split at ha <;> omega
  lower_nul := by decide
  lower_lower a := by
    apply UInt32.toNat_inj.1
    have h := lowerWide_toNat (lowerWide a)
    rw [lowerWide_toNat a] at h
    rw [h, lowerWide_toNat a]
    by_cases ha : 65 ≤ a.toNat ∧ a.toNat ≤ 90
    · rw [if_pos ha, if_neg (by omega)]
    · rw [if_neg ha, if_neg ha]

def widen (a : UInt8) : UInt32 := a.toUInt32

end CText
