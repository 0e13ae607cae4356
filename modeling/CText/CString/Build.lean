import CText.Buffer.Copy
import CText.CString.Basic
import CText.Reserve

/-!
# Building strings

Copying and joining strings in a destination of fixed size. The routines that promise a whole
result check the room first and refuse without touching the destination; the bounded ones cut the
result instead. A refusal carries the name of the routine that was called.
-/

namespace CText.CString

variable {α : Type} [DecidableEq α] [CodeUnit α]

/-- Copies a string and its terminator; answers the length of the string. -/
def copy (routine : String) (dest src : List α) : Except Violation (List α × Nat) :=
  let len := length src
  if len < dest.length then
    .ok ((Buffer.copyDisjoint dest src len).1.set len CodeUnit.nul, len)
  else .error (.noRoomToCopy routine dest.length len)

/-- What a copy into a window did: the units of the string copied, and the size of the window. -/
structure Window where
  copied : Nat
  size : Nat
  deriving DecidableEq

/-- Copies a string into the first `n` units of `dest` and fills the rest of them with
terminators. No terminator is written if the string takes them all. -/
def copyWindow (dest src : List α) (n : Nat) : List α × Window :=
  let size := min n dest.length
  let (written, ending) := Buffer.copyUntil dest src CodeUnit.nul size
  let copied := match ending with
    | .stopped i => i
    | .exhausted i => i
  let (padded, _) := Buffer.onSuffix written copied
    fun rest => Buffer.fill rest CodeUnit.nul (size - copied)
  (padded, ⟨copied, size⟩)

/-- Joins at most `n` units of `src` to the string in `dest` and ends it; answers the length of
the result. -/
def append (routine : String) (dest src : List α) (n : Nat) : Except Violation (List α × Nat) :=
  let start := length dest
  let added := boundedLength src n
  let total := start + added
  if total < dest.length then
    let (joined, _) := Buffer.onSuffix dest start fun rest => Buffer.copyDisjoint rest src added
    .ok (joined.set total CodeUnit.nul, total)
  else .error (.noRoomToAppend routine dest.length total)

/-- Copies as much of a string as `dest` can end properly; answers the length of the string. -/
def copyCut (dest src : List α) : List α × Nat :=
  let len := length src
  if dest.length = 0 then (dest, len)
  else
    let (written, count) := Buffer.copyDisjoint dest src (min len (dest.length - 1))
    (written.set count CodeUnit.nul, len)

/-- Joins as much of a string as `dest` can end properly; answers the length of the whole. -/
def appendCut (dest src : List α) : List α × Nat :=
  let start := boundedLength dest dest.length
  if start = dest.length then (dest, start + length src)
  else
    let (joined, len) := Buffer.onSuffix dest start fun rest => copyCut rest src
    (joined, start + len)

/-- The first `len` units of `s` in a buffer of their own, with a terminator. `width` is the
number of bytes in a unit. -/
def duplicate (width : Nat) (s : List α) (len : Nat) : Except Error (List α) := do
  reserve width (len + 1)
  return s.take len ++ [CodeUnit.nul]

end CText.CString
