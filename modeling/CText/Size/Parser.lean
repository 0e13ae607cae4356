import CText.Error
import CText.Size.Basic

/-!
# Reading sizes

A size is a sum of terms joined by whitespace or separators. A term is a number, perhaps followed by
a unit; without a unit it must stand alone. Numbers are read exactly, a fraction being worth the
whole bytes it comes to. Terms and their sum are counted in 128 bits, and the size in 64; whatever
leaves these ranges is out of range at once.
-/

namespace CText.Size

/-- The first number that no 128-bit counter can hold. -/
@[irreducible] def counterLimit : Nat := Nat.pow 2 128

/-- The first number that is no size. -/
@[irreducible] def sizeLimit : Nat := Nat.pow 2 64

def counted (n : Nat) : Except Error Nat := if n < counterLimit then .ok n else .error .outOfRange

def digit (c : UInt8) : Nat := c.toNat - 48

/-- What `readWhole` found: the number, how many digits it has, and what follows it. -/
structure Whole where
  value : Nat
  digits : Nat
  rest : List UInt8

/-- Whether a byte may group digits in front of `rest`, some digits having been read. -/
def isGrouping (marks : Marks) (digits : Nat) (c : UInt8) (rest : List UInt8) : Bool :=
  0 < digits && marks.grouping.contains c && !marks.decimalPoints.contains c
    && rest.head?.any Ascii.isDigit

/-- Reads digits and the bytes that group them. -/
def readWhole (marks : Marks) (value digits : Nat) : List UInt8 → Except Error Whole
  | [] => .ok ⟨value, digits, []⟩
  | c :: rest =>
    if Ascii.isDigit c then
      match counted (value * 10 + digit c) with
      | .ok value => readWhole marks value (digits + 1) rest
      | .error e => .error e
    else if isGrouping marks digits c rest then readWhole marks value digits rest
    else .ok ⟨value, digits, c :: rest⟩

/-- The digits of a fraction, if a decimal point stands first, and what follows them. -/
def readFraction (marks : Marks) : List UInt8 → List UInt8 × List UInt8
  | [] => ([], [])
  | c :: rest =>
    if marks.decimalPoints.contains c then
      (rest.takeWhile Ascii.isDigit, rest.dropWhile Ascii.isDigit)
    else ([], c :: rest)

/-- The whole part of `multiplier` times the fraction with the given digits, worked out from the
last digit inward. -/
def scaleFraction (multiplier : Nat) (fraction : List UInt8) : Nat :=
  fraction.foldr (fun c carry => (digit c * multiplier + carry) / 10) 0

def dropOne (allowed : List UInt8) : List UInt8 → List UInt8
  | [] => []
  | c :: rest => if allowed.contains c then rest else c :: rest

/-- The unit at the front and what follows it: `B` or `b` for bytes; or a unit letter, then perhaps
`i` or `I`, then perhaps `B` or `b`. Of the unit letters only `k` may be small. -/
def readUnit (base : Base) : List UInt8 → Option (Nat × List UInt8)
  | [] => none
  | c :: rest =>
    if c = Ascii.byte 'B' ∨ c = Ascii.byte 'b' then some (1, rest)
    else
      let letter := if c = Ascii.byte 'k' then Ascii.byte 'K' else c
      match letters.findIdx? (· == letter) with
      | none => none
      | some power =>
        let afterMark := dropOne (Ascii.bytes "iI") rest
        let base := if afterMark.length < rest.length then Base.binary else base
        some (Nat.pow base.value (power + 1), dropOne (Ascii.bytes "Bb") afterMark)

/-- A term: its value in bytes, whether it has a unit, and what follows it. -/
structure Term where
  value : Nat
  hasUnit : Bool
  rest : List UInt8

def readTerm (marks : Marks) (base : Base) (s : List UInt8) (offset : Nat) : Except Error Term :=
  match readWhole marks 0 0 s with
  | .error e => .error e
  | .ok whole =>
    let (fraction, rest) := readFraction marks whole.rest
    if whole.digits + fraction.length = 0 then .error (.invalidFormat .missingNumber offset)
    else match readUnit base (rest.dropWhile Ascii.isSpace) with
      | none => .ok ⟨whole.value, false, rest⟩
      | some (multiplier, rest) => do
        let product ← counted (whole.value * multiplier)
        let value ← counted (product + scaleFraction multiplier fraction)
        return ⟨value, true, rest⟩

/-- Whether a byte can stand between terms. -/
def isBetween (marks : Marks) (c : UInt8) : Bool := marks.separators.contains c || Ascii.isSpace c

/-- What has been read of a size: the sum of its terms, their number, and whether one of them has
no unit. -/
structure Sum where
  total : Nat
  terms : Nat
  unitless : Bool

theorem readWhole_length {marks : Marks} {value digits : Nat} {s : List UInt8} {w : Whole}
    (h : readWhole marks value digits s = .ok w) :
    w.digits + w.rest.length ≤ digits + s.length := by
  fun_induction readWhole marks value digits s with
  | case1 => cases h; simp
  | case2 value digits c rest _ v _ ih =>
    have := ih h
    simp only [List.length_cons]
    omega
  | case3 => cases h
  | case4 value digits c rest _ _ ih =>
    have := ih h
    simp only [List.length_cons]
    omega
  | case5 => cases h; simp

theorem readFraction_length (marks : Marks) (s : List UInt8) :
    (readFraction marks s).1.length + (readFraction marks s).2.length ≤ s.length := by
  fun_cases readFraction marks s with
  | case1 => simp
  | case2 c rest _ =>
    have := congrArg List.length (List.takeWhile_append_dropWhile (p := Ascii.isDigit) (l := rest))
    simp only [List.length_append] at this
    simp only [List.length_cons]
    omega
  | case3 => simp

theorem dropOne_length (allowed s : List UInt8) : (dropOne allowed s).length ≤ s.length := by
  fun_cases dropOne allowed s <;> simp

theorem readUnit_length {base : Base} {s rest : List UInt8} {m : Nat}
    (h : readUnit base s = some (m, rest)) : rest.length ≤ s.length := by
  cases s with
  | nil => cases h
  | cons c r =>
    unfold readUnit at h
    dsimp only at h
    split at h
    · cases h; simp
    · split at h
      · cases h
      · cases h
        have := dropOne_length (Ascii.bytes "iI") r
        have := dropOne_length (Ascii.bytes "Bb") (dropOne (Ascii.bytes "iI") r)
        simp only [List.length_cons]
        omega

theorem readTerm_length {marks : Marks} {base : Base} {s : List UInt8} {offset : Nat} {t : Term}
    (h : readTerm marks base s offset = .ok t) : t.rest.length < s.length := by
  unfold readTerm at h
  split at h
  · cases h
  · rename_i w hw
    have hwhole := readWhole_length hw
    have hfraction := readFraction_length marks w.rest
    dsimp only at h
    split at h
    · cases h
    · split at h
      · cases h
        dsimp only
        omega
      · rename_i m rest hu
        have hunit := readUnit_length hu
        have hspace := (List.dropWhile_sublist (l := (readFraction marks w.rest).2)
          Ascii.isSpace).length_le
        generalize counted (w.value * m) = product at h
        cases product with
        | error e => cases h
        | ok product =>
          change (counted _ >>= _) = _ at h
          generalize counted (product + scaleFraction m (readFraction marks w.rest).1) = value at h
          cases value with
          | error e => cases h
          | ok value =>
            cases h
            dsimp only
            omega

/-- Reads terms up to the end. `size` is the length of the whole text, of which `s` is the part
still to be read. -/
def readTerms (marks : Marks) (base : Base) (size : Nat) (sum : Sum) (s : List UInt8) :
    Except Error Sum :=
  match _h : readTerm marks base s (size - s.length) with
  | .error e => .error e
  | .ok term =>
    match counted (sum.total + term.value) with
    | .error e => .error e
    | .ok total =>
      let sum := ⟨total, sum.terms + 1, sum.unitless || !term.hasUnit⟩
      let between := term.rest.takeWhile (isBetween marks)
      let rest := term.rest.dropWhile (isBetween marks)
      if rest.isEmpty then
        if between.any fun c => marks.separators.contains c then
          .error (.invalidFormat .danglingSeparator (size - term.rest.length))
        else .ok sum
      else if between.isEmpty then
        .error (.invalidFormat .unjoinedTerms (size - rest.length))
      else readTerms marks base size sum rest
termination_by s.length
decreasing_by
  have := readTerm_length _h
  have := (List.dropWhile_sublist (l := term.rest) (isBetween marks)).length_le
  omega

def parseWith (marks : Marks) (base : Base) (s : List UInt8) : Except Error Nat :=
  let start := s.dropWhile Ascii.isSpace
  if start.isEmpty then .error (.invalidFormat .emptySize s.length)
  else
    match readTerms marks base s.length ⟨0, 0, false⟩ start with
    | .error e => .error e
    | .ok sum =>
      if sum.unitless ∧ 1 < sum.terms then .error (.invalidFormat .unitlessTerm 0)
      else if sum.total < sizeLimit then .ok sum.total
      else .error .outOfRange

def parse (base : Base) (s : List UInt8) : Except Error Nat := parseWith .standard base s

end CText.Size
