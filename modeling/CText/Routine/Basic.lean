import CText.Routine.Inputs
import CText.Routine.Outcome

/-!
# Routines that test cases can name

A routine has a name, the inputs that it may read, and what it does with them. Buffers that a case
only gives a size for are made before the call, and whether the call has the room it needs is
checked first.
-/

namespace CText

structure Routine where
  name : String
  /-- The inputs that it may read. -/
  fields : List String
  run : Json → Except Routine.Trouble Routine.Outcome

namespace Routine

/-- A call that may break a promise. -/
def kept {α : Type} : Except Violation α → Except Trouble α
  | .ok a => .ok a
  | .error v => .error (.violation v)

/-- What becomes of a call that may fail: a failure of the library is an outcome. -/
def settled : Except Escape.Failure String → Except Trouble Outcome
  | .ok shown => .ok (.ok shown)
  | .error (.error e) => .ok (.failed e)
  | .error (.violation v) => .error (.violation v)

/-- A buffer of `n` units of `width` bytes, all alike. -/
def blank {α : Type} (width : Nat) (a : α) (n : Nat) : Except Trouble (List α) :=
  if n * width ≤ maxReservation then .ok (List.replicate n a)
  else .error (.violation .unaddressable)

def requireRoom (needed capacity : Nat) : Except Trouble Unit :=
  if needed ≤ capacity then .ok () else .error (.input "dst_len" (.noRoom needed capacity))

/-- A destination of the given size with the string of an input in it. -/
def destination (inputs : Json) (field : String) (capacity : Nat) :
    Except Trouble (List UInt8) := do
  let start ← Inputs.cstring inputs field
  let len ← kept (Checked.length start)
  if capacity ≤ len then throw (.input "dst_len" .shortDestination)
  else
    let dest ← blank 1 0 capacity
    kept (do Checked.replace dest 0 len (← Checked.front start len))

end Routine

end CText
