import CText.Proofs.Checked.Size
import CText.Proofs.Yields
import Mathlib.Tactic.FieldSimp

/-!
# Fractions of a unit

The whole bytes in a fraction of a unit are worked out from the last digit inward, with a carry from
digit to digit. A carry is less than the unit, so that neither the next digit's share of the unit
nor its sum with the carry leaves 128 bits, however long the fraction is; and though something is
dropped at every digit, the last carry is the exact product rounded down once.
-/

namespace CText.Size

/-! ## What digits behind a decimal point denote -/

theorem foldl_digits (digits : List UInt8) (n : Nat) :
    digits.foldl (fun n c => n * 10 + digit c) n = n * 10 ^ digits.length + numeral digits := by
  induction digits generalizing n with
  | nil => rw [numeral, List.foldl_nil, List.foldl_nil, List.length_nil]; omega
  | cons c rest ih =>
    rw [numeral, List.foldl_cons, List.foldl_cons, ih, ih, List.length_cons, Nat.pow_succ]
    ring

theorem numeral_cons (c : UInt8) (rest : List UInt8) :
    numeral (c :: rest) = digit c * 10 ^ rest.length + numeral rest := by
  rw [numeral, List.foldl_cons, foldl_digits, Nat.zero_mul, Nat.zero_add]

/-- Digits behind a decimal point are worth their numeral over a power of ten. -/
theorem fractionValue_eq (digits : List UInt8) :
    fractionValue digits = numeral digits / 10 ^ digits.length := by
  induction digits with
  | nil => rw [fractionValue, numeral, List.foldl_nil, Nat.cast_zero, zero_div]
  | cons c rest ih =>
    rw [fractionValue, ih, numeral_cons, List.length_cons, pow_succ]
    push_cast
    field_simp

end CText.Size

namespace CText.Checked

open Size

variable {base : Base} {s behind digits : List UInt8} {pos stop multiplier carry : Nat}

/-! ## Units -/

theorem yields_powBelow (limit a n : Nat) : Yields (· = Nat.pow a n) (powBelow limit a n) := by
  unfold powBelow
  split
  · exact yields_ok rfl
  · exact yields_error _

/-- A unit is a byte or a power of its base up to the eighth. -/
theorem yields_readUnit (base : Base) (s : List UInt8) (pos : Nat) :
    Yields (fun found => ∀ unit ∈ found, 0 < unit.1 ∧ unit.1 ≤ 1024 ^ 8) (readUnit base s pos) := by
  cases s with
  | nil => exact yields_ok nofun
  | cons c rest =>
    rw [readUnit]
    split
    next =>
      refine yields_bind fun next => yields_ok ?_
      rintro unit ⟨⟩
      exact ⟨Nat.one_pos, Nat.one_le_pow _ _ (by decide)⟩
    next =>
      dsimp only
      split
      next => exact yields_ok nofun
      next index hindex =>
        have hlt : index < 8 := (List.findIdx?_eq_some_iff_findIdx_eq.1 hindex).1
        rw [addBelow_eq (by omega), ok_bind]
        refine yields_bind fun _ => yields_bind fun _ => yields_bind fun _ => ?_
        refine (yields_powBelow _ _ _).bind fun factor hfactor => yields_ok ?_
        rintro unit ⟨⟩
        subst hfactor
        exact ⟨Base.pow_pos _ _, power_le _ hlt⟩

theorem counterLimit_eq : counterLimit = 2 ^ 128 := by
  unfold counterLimit
  rfl

/-! ## Carries -/

/-- A digit's share of a unit and a carry below the unit come to less than ten units. -/
theorem share_add_carry_lt {c : UInt8} (hc : Ascii.isDigit c = true) (h : carry < multiplier) :
    digit c * multiplier + carry < 10 * multiplier := by
  have hshare := Nat.mul_le_mul_right multiplier (digit_le_nine hc)
  omega

/-- One step of the computation. -/
theorem scaleFraction_cons {c : UInt8} {rest : List UInt8} (hc : Ascii.isDigit c = true)
    (hrest : scaleFraction multiplier rest = .ok carry)
    (hfits : digit c * multiplier + carry < counterLimit) :
    scaleFraction multiplier (c :: rest) = .ok ((digit c * multiplier + carry) / 10) := by
  rw [scaleFraction, hrest, ok_bind, digit_eq hc, ok_bind, mulBelow_eq (by omega), ok_bind,
    addBelow_eq hfits]
  rfl

/-- From the last digit inward, every carry stays below the unit. -/
theorem exists_carry (hpos : 0 < multiplier) (hsmall : 10 * multiplier ≤ counterLimit)
    (hdigits : ∀ c ∈ digits, Ascii.isDigit c = true) :
    ∃ carry, scaleFraction multiplier digits = .ok carry ∧ carry < multiplier := by
  induction digits with
  | nil => exact ⟨0, rfl, hpos⟩
  | cons c rest ih =>
    obtain ⟨hc, hrest⟩ := List.forall_mem_cons.1 hdigits
    obtain ⟨carry, hcarry, hlt⟩ := ih hrest
    have hnext := share_add_carry_lt hc hlt
    exact ⟨_, scaleFraction_cons hc hcarry (by omega), by omega⟩

/-- For every unit that can be read and every fraction: the carries of all its ends are below the
unit, each digit's share of the unit and the carry behind it come to a number of 128 bits, whose
tenth is the next carry, and the last carry is the unit times the fraction, rounded down. -/
theorem fraction_carries_fit (hunit : readUnit base s pos = .ok (some (multiplier, behind, stop)))
    (hdigits : ∀ c ∈ digits, Ascii.isDigit c = true) :
    (∀ rest, rest <:+ digits →
      ∃ carry, scaleFraction multiplier rest = .ok carry ∧ carry < multiplier) ∧
    (∀ c rest carry, c :: rest <:+ digits → scaleFraction multiplier rest = .ok carry →
      digit c * multiplier + carry < 2 ^ 128 ∧
        scaleFraction multiplier (c :: rest) = .ok ((digit c * multiplier + carry) / 10)) ∧
    scaleFraction multiplier digits =
      .ok ⌊(multiplier : ℚ) * (numeral digits / 10 ^ digits.length)⌋₊ := by
  obtain ⟨hpos, hle⟩ := yields_readUnit base s pos _ hunit _ rfl
  have hlimit := unit_lt
  have hsmall : 10 * multiplier ≤ counterLimit := by
    dsimp only at hle
    omega
  have hcarries : ∀ rest, rest <:+ digits →
      ∃ carry, scaleFraction multiplier rest = .ok carry ∧ carry < multiplier :=
    fun rest hrest => exists_carry hpos hsmall fun c hc => hdigits c (hrest.subset hc)
  refine ⟨hcarries, ?_, ?_⟩
  · intro c rest carry hsuffix hrest
    obtain ⟨carry', hrest', hlt⟩ := hcarries rest ((List.suffix_cons c rest).trans hsuffix)
    obtain rfl := Except.ok.inj (hrest.symm.trans hrest')
    have hc := hdigits c (hsuffix.subset List.mem_cons_self)
    have hnext := share_add_carry_lt hc hlt
    rw [← counterLimit_eq]
    exact ⟨by omega, scaleFraction_cons hc hrest (by omega)⟩
  · rw [(scaleFraction_eq hdigits (by omega)).1, scaleFraction_eq_floor, fractionValue_eq, mul_comm]

theorem fraction_carries_largest :
    readUnit .decimal (Ascii.bytes "YiB") 4 = .ok (some (1024 ^ 8, [], 7)) ∧
      (∀ c ∈ Ascii.bytes "99", Ascii.isDigit c = true) ∧
      scaleFraction (1024 ^ 8) (Ascii.bytes "99") = .ok 1196836561418482882959114 := by
  have hunit : readUnit .decimal (Ascii.bytes "YiB") 4 = .ok (some (1024 ^ 8, [], 7)) := by
    rw [readUnit_eq .decimal (show 4 + (Ascii.bytes "YiB").length = 7 from rfl) (by decide)]
    rfl
  have hdigits : ∀ c ∈ Ascii.bytes "99", Ascii.isDigit c = true := forall_mem_of_all (by decide)
  have hlast := (fraction_carries_fit hunit hdigits).2.2
  rw [mul_comm, ← fractionValue_eq, ← scaleFraction_eq_floor] at hlast
  exact ⟨hunit, hdigits, hlast⟩

end CText.Checked
