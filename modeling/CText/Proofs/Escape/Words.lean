import CText.Escape.Decode
import Mathlib.Algebra.Group.Nat.Defs
import Mathlib.Tactic.SplitIfs

/-!
# Digits in a word

The digits of an escape are read into a number of 32 bits. Every step multiplies by the radix and
adds a digit, and either could leave the 32 bits. Here such a step gives no answer at all, and it is
shown that there always is one, the number that is read without any limit: at most eight digits to
the base sixteen are read, and those just fit.
-/

namespace CText.Escape

variable {radix limit : Nat}

/-- A digit put behind a number, if the result has no more than 32 bits. -/
def appendDigit (radix : Nat) (value : UInt32) (digit : Nat) : Option UInt32 :=
  if value.toNat * radix + digit < 2 ^ 32 then some (.ofNat (value.toNat * radix + digit)) else none

/-- Reads up to `limit` digits behind a number in which `count` digits are already. -/
def readDigitsBehind (radix : Nat) (value : UInt32) (count : Nat) :
    (limit : Nat) → List UInt8 → Option (UInt32 × Nat)
  | limit + 1, c :: rest =>
    match Ascii.digitValue radix c with
    | some d => do readDigitsBehind radix (← appendDigit radix value d) (count + 1) limit rest
    | none => some (value, count)
  | _, _ => some (value, count)

/-- The number that up to `limit` digits at the front denote and how many of them there are, as long
as no number on the way leaves the 32 bits. -/
def readDigitsInWord (radix limit : Nat) (s : List UInt8) : Option (Nat × Nat) :=
  (readDigitsBehind radix 0 0 limit s).map fun (value, count) => (value.toNat, count)

def readBracedInWord (s : List UInt8) : Option (Except Malformed (Value × Nat)) := do
  let zeros := (s.takeWhile (· == 48)).length
  let (n, count) ← readDigitsInWord 16 6 (s.drop zeros)
  return if 0 < zeros + count ∧ s[zeros + count]? = some 125 then
      (readScalar n).map (·, 3 + zeros + count)
    else .error .badBracedScalar

def readFixedInWord (count : Nat) (fault : Malformed) (s : List UInt8) :
    Option (Except Malformed (Value × Nat)) := do
  let (n, found) ← readDigitsInWord 16 count s
  return if found = count then (readScalar n).map (·, 1 + count) else .error fault

def readEscapeInWord : List UInt8 → Option (Except Malformed (Value × Nat))
  | [] => some (.ok (.unknown, 0))
  | c :: rest =>
    match byteOf? c with
    | some b => some (.ok (.byte b, 1))
    | none =>
      if Ascii.isOctalDigit c then do
        let (n, count) ← readDigitsInWord 8 3 (c :: rest)
        return if n < 256 then .ok (.byte n.toUInt8, count) else .error .octalTooLarge
      else if c = Ascii.byte 'x' then do
        let (n, count) ← readDigitsInWord 16 2 rest
        return if count = 0 then .error .missingHexDigits else .ok (.byte n.toUInt8, 1 + count)
      else if c = Ascii.byte 'u' then
        if rest.head? = some 123 then readBracedInWord rest.tail
        else readFixedInWord 4 .shortScalarDigits rest
      else if c = Ascii.byte 'U' ∧ rest.head?.any fun d => (Ascii.digitValue 16 d).isSome then
        readFixedInWord 8 .longScalarDigits rest
      else if c = Ascii.byte '^' then some (readCaret rest)
      else if Ascii.isUpper c then some (.ok (readName (c :: rest)))
      else if Ascii.isPunct c then some (.ok (.byte c, 1))
      else some (.ok (.unknown, 0))

theorem digitValue_lt {c : UInt8} {d : Nat} (h : Ascii.digitValue radix c = some d) :
    d < radix := by
  unfold Ascii.digitValue at h
  dsimp only at h
  generalize (if Ascii.isDigit c = true then c.toNat - 48
    else if Ascii.isUpper c = true then c.toNat - 55
    else if Ascii.isLower c = true then c.toNat - 87 else radix) = value at h
  split at h
  · cases h
    assumption
  · cases h

/-- A digit can be put behind a number that leaves room for it, and room for the others is left. -/
theorem appendDigit_eq {value : UInt32} {d : Nat} (hd : d < radix)
    (h : (value.toNat + 1) * radix ^ (limit + 1) ≤ 2 ^ 32) :
    ∃ next, appendDigit radix value d = some next ∧ next.toNat = value.toNat * radix + d ∧
      (next.toNat + 1) * radix ^ limit ≤ 2 ^ 32 := by
  have hnext : value.toNat * radix + d + 1 ≤ (value.toNat + 1) * radix := by
    rw [Nat.succ_mul]
    omega
  have hroom : (value.toNat * radix + d + 1) * radix ^ limit ≤ 2 ^ 32 := by
    calc (value.toNat * radix + d + 1) * radix ^ limit
        ≤ (value.toNat + 1) * radix * radix ^ limit := Nat.mul_le_mul_right _ hnext
      _ = (value.toNat + 1) * radix ^ (limit + 1) := by rw [Nat.mul_assoc, Nat.pow_succ']
      _ ≤ 2 ^ 32 := h
  have hlt : value.toNat * radix + d < 2 ^ 32 := by
    have hpos : 1 ≤ radix ^ limit := Nat.pow_pos (by omega)
    have hle := Nat.mul_le_mul_left (value.toNat * radix + d + 1) hpos
    omega
  have htoNat : (UInt32.ofNat (value.toNat * radix + d)).toNat = value.toNat * radix + d :=
    UInt32.toNat_ofNat_of_lt hlt
  exact ⟨_, if_pos hlt, htoNat, by rwa [htoNat]⟩

theorem readDigitsBehind_eq {value : UInt32} (h : (value.toNat + 1) * radix ^ limit ≤ 2 ^ 32)
    (count : Nat) (s : List UInt8) :
    (readDigitsBehind radix value count limit s).map (fun (value, count) => (value.toNat, count)) =
      let digits := (s.take limit).takeWhile fun c => (Ascii.digitValue radix c).isSome
      some (digits.foldl (fun n c => n * radix + (Ascii.digitValue radix c).getD 0) value.toNat,
        count + digits.length) := by
  induction limit generalizing value count s with
  | zero => simp [readDigitsBehind]
  | succ limit ih =>
    cases s with
    | nil => simp [readDigitsBehind]
    | cons c rest =>
      cases hc : Ascii.digitValue radix c with
      | none => simp [readDigitsBehind, hc]
      | some d =>
        obtain ⟨next, happend, htoNat, hroom⟩ := appendDigit_eq (digitValue_lt hc) h
        have hrest := ih hroom (count + 1) rest
        simp only [readDigitsBehind, hc, happend, Option.bind_eq_bind, Option.bind_some]
        rw [hrest]
        simp [hc, htoNat]
        omega

theorem readDigitsInWord_eq (h : radix ^ limit ≤ 2 ^ 32) (s : List UInt8) :
    readDigitsInWord radix limit s = some (readDigits radix limit s) := by
  have hroom : ((0 : UInt32).toNat + 1) * radix ^ limit ≤ 2 ^ 32 := by simpa using h
  rw [readDigitsInWord, readDigitsBehind_eq hroom]
  simp [readDigits]

theorem readBracedInWord_eq (s : List UInt8) : readBracedInWord s = some (readBraced s) := by
  rw [readBracedInWord]
  dsimp only
  rw [readDigitsInWord_eq (by decide)]
  rfl

theorem readFixedInWord_eq {count : Nat} (h : count ≤ 8) (fault : Malformed) (s : List UInt8) :
    readFixedInWord count fault s = some (readFixed count fault s) := by
  have hroom : 16 ^ count ≤ 16 ^ 8 := Nat.pow_le_pow_right (by decide) h
  rw [readFixedInWord, readDigitsInWord_eq hroom]
  rfl

/-- No number that an escape is read into leaves the 32 bits. -/
theorem readEscapeInWord_eq (s : List UInt8) : readEscapeInWord s = some (readEscape s) := by
  cases s with
  | nil => rfl
  | cons c rest =>
    unfold readEscapeInWord readEscape
    cases hletter : byteOf? c with
    | some b => simp only [hletter]
    | none =>
      simp only [hletter]
      split_ifs with hdigit hx hu hbrace hlong hcaret hupper hpunct
      · rw [readDigitsInWord_eq (by decide)]
        rfl
      · rw [readDigitsInWord_eq (by decide)]
        rfl
      · obtain ⟨digits, rfl⟩ := List.head?_eq_some_iff.1 hbrace
        exact readBracedInWord_eq digits
      · rw [readFixedInWord_eq (by decide)]
        split
        · exact (hbrace rfl).elim
        · rfl
      · exact readFixedInWord_eq (by decide) _ rest
      · rfl
      · rfl
      · rfl
      · rfl

end CText.Escape
