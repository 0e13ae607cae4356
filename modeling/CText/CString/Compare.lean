import CText.CString.Basic

/-!
# Comparing strings

The answer is the difference of the first two units that differ, as signed 32-bit numbers go, and
zero if the strings end together or the limit is reached first. The end of a string counts as a
unit zero. Comparisons may look at units with capital letters made small.
-/

namespace CText.CString

variable {α : Type} [DecidableEq α] [CodeUnit α]

/-- Cuts a difference to the range of a signed 32-bit number. -/
def clamp (d : Int) : Int := max (-2147483648) (min d 2147483647)

/-- The unit as a comparison looks at it. -/
def fold (folding : Bool) (a : α) : α := if folding then CodeUnit.lower a else a

def compare (folding : Bool) : Nat → List α → List α → Int
  | 0, _, _ => 0
  | n + 1, s, t =>
    let a := s.headD CodeUnit.nul
    let b := t.headD CodeUnit.nul
    if fold folding a ≠ fold folding b then
      clamp (CodeUnit.signed (fold folding a) - CodeUnit.signed (fold folding b))
    else if a = CodeUnit.nul then 0
    else compare folding n s.tail t.tail

/-- Compares whole strings, under a limit that none of them reaches. -/
def compareAll (folding : Bool) (s t : List α) : Int :=
  compare folding (max s.length t.length + 1) s t

end CText.CString
