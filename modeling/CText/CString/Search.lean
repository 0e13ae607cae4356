import CText.CString.Basic

/-!
# Searching strings

Searches see the string in a buffer and its terminator, and nothing behind. Whoever searches for
the terminator finds it at the length of the string.
-/

namespace CText.CString

variable {α : Type} [DecidableEq α] [CodeUnit α]

def indexOf (s : List α) (c : α) : Option Nat :=
  let len := length s
  if c = CodeUnit.nul then some len else Buffer.scanForward s c len

def lastIndexOf (s : List α) (c : α) : Option Nat :=
  let len := length s
  if c = CodeUnit.nul then some len else Buffer.scanBackward s c len

/-- The length of the longest start of `s` whose units all are, or all are not, in `set`. -/
def span (s set : List α) (within : Bool) : Nat :=
  let members := set.take (length set)
  ((s.take (length s)).takeWhile fun u => members.contains u == within).length

def indexOfAny (s set : List α) : Option Nat :=
  let i := span s set false
  if i < length s then some i else none

/-- Equality of units, with capital letters made small if `folding`. -/
def sameUnit (folding : Bool) (a b : α) : Bool :=
  if folding then CodeUnit.lower a == CodeUnit.lower b else a == b

def startsWith (folding : Bool) : (hay needle : List α) → Bool
  | _, [] => true
  | [], _ :: _ => false
  | a :: hay, b :: needle => sameUnit folding a b && startsWith folding hay needle

/-- The first offset at which `needle` stands, trying one offset after the other. -/
def findFrom (folding : Bool) (needle : List α) : List α → Option Nat
  | [] => if needle.isEmpty then some 0 else none
  | a :: hay =>
    if startsWith folding (a :: hay) needle then some 0
    else (findFrom folding needle hay).map (· + 1)

/-- The first offset at which the string in `needle` stands in the string in `hay`. -/
def find (folding : Bool) (hay needle : List α) : Option Nat :=
  findFrom folding (needle.take (length needle)) (hay.take (length hay))

end CText.CString
