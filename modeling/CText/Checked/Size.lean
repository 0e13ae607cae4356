import CText.Checked.Buffer
import CText.Size.Parser
import CText.Size.Printer

/-!
# Sizes, step by step

The readers and the writer of sizes with the offsets that they count and the numbers that they work
out. What is left to read goes with the offset at which it begins.
-/

namespace CText.Checked

open Buffer Escape Size

/-- A power that has to stay below a limit. -/
def powBelow (limit a n : Nat) : Except Violation Nat :=
  if Nat.pow a n < limit then .ok (Nat.pow a n) else .error (.overflow .multiplication)

/-- What is left when a run of bytes is passed over. -/
def skipWhile (p : UInt8 → Bool) : List UInt8 → (pos : Nat) → Except Violation (List UInt8 × Nat)
  | [], pos => return ([], pos)
  | c :: rest, pos => do
    if p c then skipWhile p rest (← add pos 1) else return (c :: rest, pos)

/-- What is left when one of the given bytes is passed over. -/
def skipOne (allowed : List UInt8) : List UInt8 → (pos : Nat) → Except Violation (List UInt8 × Nat)
  | [], pos => return ([], pos)
  | c :: rest, pos => do
    if allowed.contains c then return (rest, ← add pos 1) else return (c :: rest, pos)

/-! ## Reading -/

def readWhole (marks : Marks) (value digits : Nat) :
    List UInt8 → (pos : Nat) → Except Failure (Whole × Nat)
  | [], pos => return (⟨value, digits, []⟩, pos)
  | c :: rest, pos => do
    if Ascii.isDigit c then
      let value ← granted (counted (value * 10 + (← checked (sub c.toNat 48))))
      readWhole marks value (← checked (add digits 1)) rest (← checked (add pos 1))
    else
      let next ← checked (add pos 1)
      if isGrouping marks digits c rest then readWhole marks value digits rest next
      else return (⟨value, digits, c :: rest⟩, pos)

def readFraction (marks : Marks) :
    List UInt8 → (pos : Nat) → Except Violation (List UInt8 × List UInt8 × Nat)
  | [], pos => return ([], [], pos)
  | c :: rest, pos => do
    if marks.decimalPoints.contains c then
      let start ← add pos 1
      let (behind, stop) ← skipWhile Ascii.isDigit rest start
      return (← front rest (← sub stop start), behind, stop)
    else return ([], c :: rest, pos)

/-- The whole part of `multiplier` times a fraction, in 128 bits. -/
def scaleFraction (multiplier : Nat) : List UInt8 → Except Violation Nat
  | [] => return 0
  | c :: rest => do
    let carry ← scaleFraction multiplier rest
    let scaled ← mulBelow counterLimit (← sub c.toNat 48) multiplier
    return (← addBelow counterLimit scaled carry) / 10

def readUnit (base : Base) :
    List UInt8 → (pos : Nat) → Except Violation (Option (Nat × List UInt8 × Nat))
  | [], _ => return none
  | c :: rest, pos => do
    if c = Ascii.byte 'B' ∨ c = Ascii.byte 'b' then return some (1, rest, ← add pos 1)
    else
      let letter := if c = Ascii.byte 'k' then Ascii.byte 'K' else c
      match letters.findIdx? (· == letter) with
      | none => return none
      | some index =>
        let power ← addBelow 4294967296 index 1
        let (afterMark, markEnd) ← skipOne (Ascii.bytes "iI") rest (← add pos 1)
        let base := if afterMark.length < rest.length then Base.binary else base
        let (behind, stop) ← skipOne (Ascii.bytes "Bb") afterMark markEnd
        return some (← powBelow counterLimit base.value power, behind, stop)

/-- Reads a term at `pos`; answers the term and the offset behind it. -/
def readTerm (marks : Marks) (base : Base) (s : List UInt8) (pos : Nat) :
    Except Failure (Term × Nat) := do
  let (whole, wholeEnd) ← readWhole marks 0 0 s pos
  let (fraction, rest, stop) ← checked (readFraction marks whole.rest wholeEnd)
  if (← checked (add whole.digits fraction.length)) = 0 then
    throw (.error (.invalidFormat .missingNumber pos))
  else
    let (unit, unitAt) ← checked (skipWhile Ascii.isSpace rest stop)
    match ← checked (readUnit base unit unitAt) with
    | none => return (⟨whole.value, false, rest⟩, stop)
    | some (multiplier, rest, stop) =>
      let product ← granted (counted (whole.value * multiplier))
      let value ← granted (counted (product + (← checked (scaleFraction multiplier fraction))))
      return (⟨value, true, rest⟩, stop)

/-- Reads terms from `pos` up to the end, in at most so many turns. -/
def readTerms (marks : Marks) (base : Base) (sum : Sum) (s : List UInt8) (pos : Nat) :
    (turns : Nat) → Except Failure Sum
  | 0 => return sum
  | turns + 1 => do
    let (term, stop) ← readTerm marks base s pos
    let total ← granted (counted (sum.total + term.value))
    let sum := ⟨total, ← checked (add sum.terms 1), sum.unitless || !term.hasUnit⟩
    let (rest, next) ← checked (skipWhile (isBetween marks) term.rest stop)
    let between := term.rest.takeWhile (isBetween marks)
    if rest.isEmpty then
      if between.any fun c => marks.separators.contains c then
        throw (.error (.invalidFormat .danglingSeparator stop))
      else return sum
    else if next = stop then throw (.error (.invalidFormat .unjoinedTerms next))
    else readTerms marks base sum rest next turns

def parseWith (marks : Marks) (base : Base) (s : List UInt8) : Except Failure Nat := do
  let (start, pos) ← checked (skipWhile Ascii.isSpace s 0)
  if start.isEmpty then throw (.error (.invalidFormat .emptySize pos))
  else
    let sum ← readTerms marks base ⟨0, 0, false⟩ start pos s.length
    if sum.unitless ∧ 1 < sum.terms then throw (.error (.invalidFormat .unitlessTerm 0))
    else if sum.total < sizeLimit then return sum.total
    else throw (.error .outOfRange)

/-! ## Writing -/

/-- The power of the base in which `n` is written, tried from `power` on. -/
def powerFrom (base : Base) (n power : Nat) : (left : Nat) → Except Violation Nat
  | 0 => return power
  | left + 1 => do
    let next ← addBelow 4294967296 power 1
    if (← powBelow counterLimit base.value next) ≤ n then powerFrom base n next left
    else return power

def renderSize (base : Base) (n : Nat) : Except Violation (List UInt8) := do
  let power ← powerFrom base n 0 6
  if power = 0 then return Ascii.decimal n ++ [Ascii.byte 'B']
  else
    let tenths := (← mulBelow counterLimit n 10) / (← powBelow counterLimit base.value power)
    let letter ← fetch letters (← sub power 1)
    let place := if tenths % 10 = 0 then [] else Ascii.byte '.' :: Ascii.decimal (tenths % 10)
    let mark := match base with
      | .decimal => []
      | .binary => [Ascii.byte 'i']
    return Ascii.decimal (tenths / 10) ++ place ++ [letter] ++ mark ++ [Ascii.byte 'B']

end CText.Checked
