import CText.Json.Printer
import CText.Json.Reader
import Mathlib.Algebra.Group.Nat.Defs
import Mathlib.Data.List.Basic
import Mathlib.Tactic.SplitIfs

/-!
# Texts and whole numbers as they are written

What is written for a text or a whole number of 64 bits is read back as that text or number, up to
where it ends. A text ends at its closing quote. A number ends only where no digit, point or
exponent follows.
-/

namespace CText.Json

/-! ## Texts -/

theorem hexValue?_hexDigit (n : Nat) : hexValue? (hexDigit n) = some (n % 16) := by
  have : ∀ d < 16, hexValue? ((Nat.toDigits 16 d).headD '0') = some d := by decide
  exact this (n % 16) (Nat.mod_lt n (by decide))

/-- The escape for a control character is read as that character. -/
theorem readScalar_control {n : Nat} (h : n < 32) (rest : List Char) :
    readScalar ('0' :: '0' :: hexDigit (n / 16) :: hexDigit n :: rest) =
      .ok (some (Char.ofNat n), rest) := by
  have hzero : hexValue? '0' = some 0 := rfl
  have hvalue : n / 16 % 16 * 16 + n % 16 = n := by omega
  simp only [readScalar, readHex4, hzero, hexValue?_hexDigit, Nat.zero_mul, Nat.zero_add, hvalue]
  rw [if_neg (by omega), if_neg (by omega)]

theorem readQuoted_quote (rest : List Char) : readQuoted ('\"' :: rest) = .whole (some []) rest := by
  rw [readQuoted.eq_def]
  exact if_pos rfl

/-- A character with an escape of one letter is read back. -/
theorem readQuoted_letter {e c : Char} (he : simpleEscape? e = some c) (hu : e ≠ 'u')
    (rest : List Char) : readQuoted ('\\' :: e :: rest) = (readQuoted rest).push c := by
  rw [readQuoted, if_neg (by decide), if_pos rfl]
  simp only [if_neg hu, he]

/-- A control character with an escape by its number is read back. -/
theorem readQuoted_control {n : Nat} (h : n < 32) (rest : List Char) :
    readQuoted ('\\' :: 'u' :: '0' :: '0' :: hexDigit (n / 16) :: hexDigit n :: rest) =
      (readQuoted rest).push (Char.ofNat n) := by
  rw [readQuoted, if_neg (by decide), if_pos rfl]
  simp only [if_pos]
  split
  next fault hread =>
    rw [readScalar_control h] at hread
    cases hread
  next c after hread =>
    rw [readScalar_control h] at hread
    cases hread
    rfl
  next after hread =>
    rw [readScalar_control h] at hread
    cases hread

/-- A character that needs no escape is read back. -/
theorem readQuoted_plain {c : Char} (hquote : c ≠ '\"') (hbackslash : c ≠ '\\')
    (hcontrol : 32 ≤ c.toNat) (rest : List Char) :
    readQuoted (c :: rest) = (readQuoted rest).push c := by
  rw [readQuoted.eq_def]
  simp only [if_neg hquote, if_neg hbackslash, if_neg (Nat.not_lt.2 hcontrol)]

theorem readQuoted_escapeChar (c : Char) (rest : List Char) :
    readQuoted (escapeChar c ++ rest) = (readQuoted rest).push c := by
  have hnat (n : Nat) (h : c.toNat = n) : Char.ofNat n = c := by
    rw [← h]
    exact Char.ofNat_toNat c
  unfold escapeChar
  split_ifs with hquote hbackslash hback htab hfeed hpage hreturn hcontrol
  · subst hquote
    exact readQuoted_letter rfl (by decide) rest
  · subst hbackslash
    exact readQuoted_letter rfl (by decide) rest
  · rw [← hnat 8 hback]
    exact readQuoted_letter rfl (by decide) rest
  · rw [← hnat 9 htab]
    exact readQuoted_letter rfl (by decide) rest
  · rw [← hnat 10 hfeed]
    exact readQuoted_letter rfl (by decide) rest
  · rw [← hnat 12 hpage]
    exact readQuoted_letter rfl (by decide) rest
  · rw [← hnat 13 hreturn]
    exact readQuoted_letter rfl (by decide) rest
  · have := readQuoted_control hcontrol rest
    rw [Char.ofNat_toNat] at this
    exact this
  · exact readQuoted_plain hquote hbackslash (by omega) rest

/-- The characters of a text, escaped and followed by a quote, are read back up to the quote. -/
theorem readQuoted_escaped (s rest : List Char) :
    readQuoted (s.flatMap escapeChar ++ '\"' :: rest) = .whole (some s) rest := by
  induction s with
  | nil => exact readQuoted_quote rest
  | cons c s ih =>
    rw [List.flatMap_cons, List.append_assoc, readQuoted_escapeChar, ih]
    rfl

/-! ## Whole numbers -/

/-- A text that does not go on a whole number. -/
def Stops (rest : List Char) : Prop :=
  ∀ c ∈ rest.head?, isDigit c = false ∧ c ≠ '.' ∧ c ≠ 'e' ∧ c ≠ 'E'

theorem isDigit_eq (c : Char) : isDigit c = c.isDigit := by
  simp only [isDigit, Char.isDigit, Char.le_def]

theorem isDigit_of_mem_toDigits {n : Nat} {c : Char} (h : c ∈ Nat.toDigits 10 n) :
    isDigit c = true := by
  rw [isDigit_eq]
  exact Nat.isDigit_of_mem_toDigits (by decide) (by decide) h

theorem digitsValue_toDigits (n : Nat) : digitsValue (Nat.toDigits 10 n) = n := by
  have h := Nat.ofDigitChars_toDigits (b := 10) (n := n) (by decide) (by decide)
  rw [Nat.ofDigitChars_eq_foldl] at h
  simp only [Nat.mul_comm 10] at h
  exact h

/-- A number with several digits does not begin with a zero. -/
theorem head?_toDigits {n : Nat} (h : 10 ≤ n) : (Nat.toDigits 10 n).head? ≠ some '0' := by
  induction n using Nat.strongRecOn with
  | ind n ih =>
    rw [Nat.toDigits_of_base_le (by decide) h, List.head?_append_of_ne_nil _ Nat.toDigits_ne_nil]
    by_cases hten : 10 ≤ n / 10
    · exact ih (n / 10) (by omega) hten
    · rw [Nat.toDigits_of_lt_base (by omega)]
      simp only [List.head?_cons, ne_eq, Option.some.injEq, Nat.digitChar_eq_zero]
      omega

theorem takeWhile_digits (n : Nat) {rest : List Char} (h : Stops rest) :
    (Nat.toDigits 10 n ++ rest).takeWhile isDigit = Nat.toDigits 10 n ∧
      (Nat.toDigits 10 n ++ rest).dropWhile isDigit = rest := by
  have hdigits : ∀ c ∈ Nat.toDigits 10 n, isDigit c = true := fun c => isDigit_of_mem_toDigits
  rw [List.takeWhile_append_of_pos hdigits, List.dropWhile_append_of_pos hdigits]
  cases rest with
  | nil => simp
  | cons c rest =>
    have : isDigit c = false := (h c rfl).1
    simp [this]

/-- The digits of a number are read up to where they end. -/
theorem readNumeral_toDigits (negative : Bool) (n : Nat) {rest : List Char} (h : Stops rest) :
    readNumeral negative (Nat.toDigits 10 n ++ rest) =
      .whole (wholeOf negative (Nat.toDigits 10 n)) rest := by
  obtain ⟨htake, hdrop⟩ := takeWhile_digits n h
  have hzero : ¬((Nat.toDigits 10 n).head? = some '0' ∧ 1 < (Nat.toDigits 10 n).length) := by
    rintro ⟨hhead, hlong⟩
    by_cases hten : 10 ≤ n
    · exact head?_toDigits hten hhead
    · rw [Nat.toDigits_of_lt_base (by omega)] at hlong
      simp at hlong
  have hsome : (Nat.toDigits 10 n).isEmpty = false := by
    simp
  simp only [readNumeral, htake, hdrop, hsome, if_neg hzero, Bool.false_eq_true, if_false]
  cases rest with
  | nil => rfl
  | cons c rest =>
    obtain ⟨-, hpoint, hsmall, hlarge⟩ := h c rfl
    split
    next heq =>
      cases heq
      exact absurd rfl hpoint
    next =>
      simp [readExponent, hsmall, hlarge]

theorem wholeOf_toDigits {n : Nat} (h : n < 2 ^ 64) :
    wholeOf false (Nat.toDigits 10 n) = some (.whole n) := by
  have : n < wordLimit := h
  simp [wholeOf, digitsValue_toDigits, this]

theorem wholeOf_neg_toDigits {n : Nat} (hpos : 0 < n) (h : n ≤ 2 ^ 63) :
    wholeOf true (Nat.toDigits 10 n) = some (.whole (-n)) := by
  have : n ≤ Nat.pow 2 63 := h
  simp [wholeOf, digitsValue_toDigits, hpos, this]

end CText.Json
