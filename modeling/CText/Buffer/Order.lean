import CText.Unit

/-!
# Comparing buffers

Two buffers are compared unit by unit up to a limit that is cut to the shorter of them. No unit
ends the comparison early.
-/

namespace CText.Buffer

variable {α : Type} [DecidableEq α] [CodeUnit α]

/-- The first pair of different units at one offset. -/
def firstDifference : List α → List α → Option (α × α)
  | a :: s, b :: t => if a = b then firstDifference s t else some (a, b)
  | _, _ => none

/-- Orders the first `n` units of two buffers by the first pair that differs, read as unsigned
numbers. -/
def compareUnsigned (s t : List α) (n : Nat) : Ordering :=
  match firstDifference (s.take n) (t.take n) with
  | none => .eq
  | some (a, b) => compare (CodeUnit.value a) (CodeUnit.value b)

/-- Orders the first `n` units of two buffers by the first pair that differs, read as the numbers
that string comparisons subtract. -/
def compareSigned (s t : List α) (n : Nat) : Int :=
  match firstDifference (s.take n) (t.take n) with
  | none => 0
  | some (a, b) => if CodeUnit.signed a < CodeUnit.signed b then -1 else 1

end CText.Buffer
