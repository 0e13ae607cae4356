import CText.Buffer.Scan

/-!
# Strings with a terminator

The string in a buffer is what stands before the first unit zero. A buffer without a zero holds a
string that ends where the buffer ends: reading further behaves as if a zero stood there.
-/

namespace CText.CString

variable {α : Type} [DecidableEq α] [CodeUnit α]

/-- The units before the terminator. -/
def content (s : List α) : List α := s.takeWhile (· ≠ CodeUnit.nul)

theorem content_length_le (s : List α) : (content s).length ≤ s.length :=
  (List.takeWhile_sublist _).length_le

def length (s : List α) : Nat := (Buffer.scanForward s CodeUnit.nul s.length).getD s.length

/-- The number of units before the terminator, never looking past the first `n`. -/
def boundedLength (s : List α) (n : Nat) : Nat :=
  let bound := min n s.length
  (Buffer.scanForward s CodeUnit.nul bound).getD bound

end CText.CString
