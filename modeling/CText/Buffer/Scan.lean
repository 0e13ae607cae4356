import CText.Error
import CText.Unit

/-!
# Searching a buffer

A buffer is a list of units and nothing in it is special: a unit zero is searched for like any
other. Limits beyond the end of the buffer are cut to its length. An offset counts units from the
start of the buffer.
-/

namespace CText.Buffer

variable {α : Type} [DecidableEq α]

def lastIndex (p : α → Bool) : List α → Option Nat
  | [] => none
  | a :: rest => match lastIndex p rest with
    | some i => some (i + 1)
    | none => if p a then some 0 else none

/-- The first offset of `needle` among the first `limit` units. -/
def scanForward (buf : List α) (needle : α) (limit : Nat) : Option Nat :=
  (buf.take limit).findIdx? (· == needle)

/-- The last offset of `needle` among the first `limit` units. -/
def scanBackward (buf : List α) (needle : α) (limit : Nat) : Option Nat :=
  lastIndex (· == needle) (buf.take limit)

/-- The first offset of a `needle` that the caller promises to be there. -/
def scanPresent [CodeUnit α] (buf : List α) (needle : α) : Except Violation Nat :=
  match buf.findIdx? (· == needle) with
  | some i => .ok i
  | none => .error (.absentNeedle (CodeUnit.value needle))

/-- Searches for a block whose first unit is `first`, jumping from one `first` to the next; `base`
is the offset of `hay` in the whole buffer. -/
def findBlockFrom (first : α) (needle : List α) (hay : List α) (base : Nat) : Option Nat :=
  if needle.length ≤ hay.length then
    match h : scanForward hay first (hay.length - needle.length + 1) with
    | none => none
    | some i =>
      if needle.isPrefixOf (hay.drop i) then some (base + i)
      else findBlockFrom first needle (hay.drop (i + 1)) (base + i + 1)
  else none
termination_by hay.length
decreasing_by
  have hi : i < (hay.take (hay.length - needle.length + 1)).length :=
    (List.findIdx?_eq_some_iff_findIdx_eq.1 h).1
  simp only [List.length_take, List.length_drop] at hi ⊢
  omega

/-- The first offset at which the whole of `needle` stands in `hay`. An empty `needle` stands
at the start. -/
def findBlock (hay needle : List α) : Option Nat :=
  match needle with
  | [] => some 0
  | first :: _ => findBlockFrom first needle hay 0

end CText.Buffer
