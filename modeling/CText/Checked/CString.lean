import CText.CString.Build
import CText.CString.Compare
import CText.CString.Search
import CText.Checked.Buffer

/-!
# Routines on strings, step by step

The routines on strings with the offsets that they work out and the ranges that they take. What the
routines promise their callers to check, the room in a destination, is checked here as there.
-/

namespace CText.Checked

open Buffer CString Escape

variable {α : Type} [DecidableEq α] [CodeUnit α]

def length (s : List α) : Except Violation Nat := do
  return (← scanForward s CodeUnit.nul s.length).getD s.length

def boundedLength (s : List α) (n : Nat) : Except Violation Nat := do
  let bound := min n s.length
  return (← scanForward s CodeUnit.nul bound).getD bound

def content (s : List α) : Except Violation (List α) := do front s (← length s)

/-! ## Comparing -/

/-- A difference of 64 bits with a sign. -/
def subSigned (a b : Int) : Except Violation Int :=
  if -9223372036854775808 ≤ a - b ∧ a - b < 9223372036854775808 then .ok (a - b)
  else .error (.overflow .subtraction)

/-- A unit with a capital letter made small, which is 32 units further up. -/
def lowered (a : α) : Except Violation α := do
  if 65 ≤ CodeUnit.value a ∧ CodeUnit.value a ≤ 90 then
    let _ ← addBelow 4294967296 (CodeUnit.value a) 32
  return CodeUnit.lower a

def folded (folding : Bool) (a : α) : Except Violation α := if folding then lowered a else return a

def compare (folding : Bool) : Nat → List α → List α → Except Violation Int
  | 0, _, _ => return 0
  | n + 1, s, t => do
    let a ← folded folding (s.headD CodeUnit.nul)
    let b ← folded folding (t.headD CodeUnit.nul)
    if a ≠ b then return clamp (← subSigned (CodeUnit.signed a) (CodeUnit.signed b))
    else if s.headD CodeUnit.nul = CodeUnit.nul then return 0
    else compare folding n s.tail t.tail

def compareAll (folding : Bool) (s t : List α) : Except Violation Int :=
  compare folding (max s.length t.length + 1) s t

/-! ## Searching -/

def indexOf (s : List α) (c : α) : Except Violation (Option Nat) := do
  let len ← length s
  if c = CodeUnit.nul then return some len else scanForward s c len

def lastIndexOf (s : List α) (c : α) : Except Violation (Option Nat) := do
  let len ← length s
  if c = CodeUnit.nul then return some len else scanBackward s c len

def indexOrEnd (s : List α) (c : α) : Except Violation Nat := do
  match ← indexOf s c with
  | some i => return i
  | none => length s

def span (s set : List α) (within : Bool) : Except Violation Nat := do
  let len ← length s
  let members ← content set
  let units ← front s len
  return (units.takeWhile fun u => members.contains u == within).length

def indexOfAny (s set : List α) : Except Violation (Option Nat) := do
  let i ← span s set false
  return if i < (← length s) then some i else none

/-- The runs of `n` units in a buffer, one from each offset. -/
def runs (n : Nat) : List α → List (List α)
  | [] => []
  | a :: s => if n ≤ (a :: s).length then (a :: s).take n :: runs n s else []

/-- The runs of `n` units in a buffer, where `n` must not be zero. -/
def windows (n : Nat) (s : List α) : Except Violation (List (List α)) :=
  if n = 0 then .error .emptyWindow else .ok (runs n s)

/-- Whether two runs of units are alike as far as both of them go. -/
def alike (folding : Bool) : List α → List α → Except Violation Bool
  | a :: s, b :: t => do
    if (← folded folding a) = (← folded folding b) then alike folding s t else return false
  | _, _ => return true

/-- The first of some runs that is like `needle`. -/
def firstAlike (folding : Bool) (needle : List α) : List (List α) → Except Violation (Option Nat)
  | [] => return none
  | window :: rest => do
    if ← alike folding window needle then return some 0
    else return (← firstAlike folding needle rest).map (· + 1)

def find (folding : Bool) (hay needle : List α) : Except Violation (Option Nat) := do
  let hayLength ← length hay
  let needleLength ← length needle
  if needleLength = 0 then return some 0
  else if hayLength < needleLength then return none
  else
    let needle ← front needle needleLength
    firstAlike folding needle (← windows needleLength (← front hay hayLength))

/-! ## Building -/

def copy (routine : String) (dest src : List α) : Except Violation (List α × Nat) := do
  let len ← length src
  if len < dest.length then
    let (written, _) ← copyDisjoint dest src len
    return (← store written len CodeUnit.nul, len)
  else throw (.noRoomToCopy routine dest.length len)

def copyAll (routine : String) (dest src : List α) : Except Violation (List α × Nat) := do
  let (written, len) ← copy routine dest src
  return (written, ← add len 1)

def copyWindow (dest src : List α) (n : Nat) : Except Violation (List α × Window) := do
  let size := min n dest.length
  let (written, ending) ← copyUntil dest src CodeUnit.nul size
  let copied := match ending with
    | .stopped i => i
    | .exhausted i => i
  return (← fillBetween written CodeUnit.nul copied size, ⟨copied, size⟩)

def append (routine : String) (dest src : List α) (n : Nat) : Except Violation (List α × Nat) := do
  let start ← length dest
  let added ← boundedLength src n
  let total ← add start added
  if total < dest.length then
    let (joined, _) ← onBehind dest start fun rest => copyDisjoint rest src added
    return (← store joined total CodeUnit.nul, total)
  else throw (.noRoomToAppend routine dest.length total)

def copyCut (dest src : List α) : Except Violation (List α × Nat) := do
  let len ← length src
  if dest.length = 0 then return (dest, len)
  else
    let (written, count) ← copyDisjoint dest src (min len (dest.length - 1))
    return (← store written count CodeUnit.nul, len)

def appendCut (dest src : List α) : Except Violation (List α × Nat) := do
  let start ← boundedLength dest dest.length
  if start = dest.length then return (dest, ← add start (← length src))
  else
    let (joined, len) ← onBehind dest start fun rest => copyCut rest src
    return (joined, ← add start len)

def duplicate (width : Nat) (s : List α) (len : Nat) : Except Failure (List α) := do
  granted (reserve width (← checked (add len 1)))
  return (← checked (front s len)) ++ [CodeUnit.nul]

end CText.Checked
