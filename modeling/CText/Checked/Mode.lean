import CText.Checked.Buffer
import CText.Mode.Parser

/-!
# Reading modes, step by step

The readers of modes with the offsets that they count. What is left to read goes with the offset at
which it begins.
-/

namespace CText.Checked

open Buffer Escape Mode

/-! ## Which notation -/

def permissionPart (s : List UInt8) : Except Violation (Option (List UInt8)) := do
  if s.length = 9 then return some s
  else if s.length = 10 then
    if typeBytes.contains (← fetch s 0) then return some (← behind s 1) else return none
  else return none

/-- Whether a letter at one of `left` offsets from `i` on stands again behind it. -/
def repeatsLetter (s : List UInt8) (i : Nat) : (left : Nat) → Except Violation Bool
  | 0 => return false
  | left + 1 => do
    let c ← fetch s i
    if Ascii.isAlpha c then
      if (← behind s (← add i 1)).contains c then return true else repeatsLetter s (i + 1) left
    else repeatsLetter s (i + 1) left

def isExact (s : List UInt8) : Except Violation Bool := do
  match ← permissionPart s with
  | none => return false
  | some positions =>
    if (positions.zip exactPositions).all fun (c, allowed) => allowed.contains c then
      if s.contains 45 then return true else repeatsLetter s 0 s.length
    else return false

def classify (s : List UInt8) : Except Failure Form :=
  match s with
  | [] => .error (.error (.invalidFormat .emptyMode 0))
  | c :: _ => do
    if s.all Ascii.isOctalDigit then return .numeric
    else if ← checked (isExact s) then return .exact
    else if partialStart.contains c then return .clauses
    else throw (.error (.invalidFormat .unrecognizedMode 0))

/-! ## Exact modes -/

/-- Reads positions, of which the one at the front is number `i`; `offset` is where the first of
them
stands. -/
def parsePositions (offset : Nat) : List UInt8 → (i : Nat) → Except Failure UInt32
  | [], _ => return 0
  | c :: rest, i => do
    let who ← checked (fetch Who.all (i / 3))
    match positionBits who (i % 3) c with
    | some bits => return bits ||| (← parsePositions offset rest (i + 1))
    | none => throw (.error (.invalidFormat .badPermission (← checked (add offset i))))

def parseExact (s : List UInt8) : Except Failure Update := do
  let offset ← checked (sub s.length 9)
  return .replace (← parsePositions offset (← checked (behind s offset)) 0)

/-! ## Partial modes -/

/-- The classes named at `pos`, and what follows them at another offset. -/
def readWho : List UInt8 → (pos : Nat) → Except Violation (List Who × List UInt8 × Nat)
  | [], pos => return ([], [], pos)
  | c :: rest, pos => match whoOfByte? c with
    | some who => do
      let (others, rest, stop) ← readWho rest (← add pos 1)
      return (who ++ others, rest, stop)
    | none => return ([], c :: rest, pos)

/-- The permission letters from `pos` up to a comma or the end, and what follows at another
offset. -/
def readPermissions : List UInt8 → (pos : Nat) → Except Failure (List UInt8 × List UInt8 × Nat)
  | [], pos => return ([], [], pos)
  | c :: rest, pos =>
    if c = comma then return ([], c :: rest, pos)
    else if (letterBits c .owner).isSome then do
      let (letters, rest, stop) ← readPermissions rest (← checked (add pos 1))
      return (c :: letters, rest, stop)
    else throw (.error (.invalidFormat .badPermission pos))

/-- Reads one clause at `pos`; answers the clause and what follows it at another offset. -/
def readClause (touched : List Who) (s : List UInt8) (pos : Nat) :
    Except Failure (Clause × List UInt8 × Nat) := do
  if s.head? = some comma then throw (.error (.invalidFormat .emptyClause pos))
  else
    let (named, afterWho, operatorAt) ← checked (readWho s pos)
    let who := whoSet named
    if who.any fun w => touched.contains w then throw (.error (.invalidFormat .classRepeated pos))
    else match afterWho with
      | [] => throw (.error (.invalidFormat .missingOperator operatorAt))
      | c :: afterOperator => match Operator.ofByte? c with
        | none => throw (.error (.invalidFormat .missingOperator operatorAt))
        | some operator =>
          let (permissions, rest, stop) ←
            readPermissions afterOperator (← checked (add operatorAt 1))
          return (⟨who, operator, permissions⟩, rest, stop)

/-- Reads clauses up to the end, in at most so many turns. -/
def readClauses (touched : List Who) (s : List UInt8) (pos : Nat) :
    (turns : Nat) → Except Failure (List Clause)
  | 0 => return []
  | turns + 1 => do
    let (clause, rest, stop) ← readClause touched s pos
    match rest with
    | [] => return [clause]
    | _ :: rest =>
      let next ← checked (add stop 1)
      if rest.isEmpty then throw (.error (.invalidFormat .emptyClause next))
      else return clause :: (← readClauses (touched ++ clause.who) rest next turns)

def parsePartial (s : List UInt8) : Except Failure Update := do
  let clauses ← readClauses [] s 0 (s.length + 1)
  return clauses.foldl (fun u clause => u.merge clause.update) .none

def parseMode (s : List UInt8) : Except Failure Update := do
  match ← classify s with
  | .numeric => granted (parseNumeric s)
  | .exact => parseExact s
  | .clauses => parsePartial s

end CText.Checked
