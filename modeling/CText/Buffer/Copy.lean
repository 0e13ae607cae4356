import CText.Error
import CText.Unit

/-!
# Writing to a buffer

Every routine returns the whole buffer after the call together with its answer, and a buffer never
changes its length. Counts are cut so that no routine leaves a buffer. Regions of one buffer may
overlap only in `copyOverlapping`, which moves unit by unit and in the direction that reads each
unit before it is overwritten; that every one of these moves stays inside the buffer is not built
in but has to be shown, so a move outside is a violation.
-/

namespace CText.Buffer

variable {α : Type} [DecidableEq α]

/-- Overwrites the start of `dest` with at most `n` units of `src`; answers how many. -/
def copyDisjoint (dest src : List α) (n : Nat) : List α × Nat :=
  let count := min n (min dest.length src.length)
  (src.take count ++ dest.drop count, count)

def fetch (buf : List α) (i : Nat) : Except Violation α :=
  match buf[i]? with
  | some a => .ok a
  | none => .error (.indexPastEnd i buf.length)

def slice (buf : List α) (start stop : Nat) : Except Violation (List α) :=
  if buf.length < start then .error (.startPastEnd start buf.length)
  else if buf.length < stop then .error (.stopPastEnd stop buf.length)
  else if stop < start then .error (.startPastStop start stop)
  else .ok ((buf.drop start).take (stop - start))

def store (buf : List α) (i : Nat) (a : α) : Except Violation (List α) :=
  if i < buf.length then .ok (buf.set i a) else .error (.indexPastEnd i buf.length)

/-- Writes units one after another from offset `i` on. -/
def storeAll (buf : List α) (i : Nat) : List α → Except Violation (List α)
  | [] => .ok buf
  | a :: rest => match store buf i a with
    | .ok buf => storeAll buf (i + 1) rest
    | .error v => .error v

def move (buf : List α) (dest src : Nat) : Except Violation (List α) :=
  match fetch buf src with
  | .ok a => store buf dest a
  | .error v => .error v

/-- Moves `n` units, the lowest first. -/
def moveUp (buf : List α) (dest src : Nat) : Nat → Except Violation (List α)
  | 0 => .ok buf
  | n + 1 => match move buf dest src with
    | .ok buf => moveUp buf (dest + 1) (src + 1) n
    | .error v => .error v

/-- Moves `n` units, the highest first. -/
def moveDown (buf : List α) (dest src : Nat) : Nat → Except Violation (List α)
  | 0 => .ok buf
  | n + 1 => match move buf (dest + n) (src + n) with
    | .ok buf => moveDown buf dest src n
    | .error v => .error v

/-- Moves the `n` units at `src` to `dest` within one buffer and answers how many were moved, `n`
being cut so that both regions stay inside. The highest unit goes first exactly when `dest` lies
inside the region read. -/
def copyOverlapping (buf : List α) (dest src n : Nat) : Except Violation (List α × Nat) :=
  let count := min n (min (buf.length - dest) (buf.length - src))
  if count = 0 ∨ dest = src then .ok (buf, count)
  else if src < dest ∧ dest < src + count then
    (moveDown buf dest src count).map (·, count)
  else
    (moveUp buf dest src count).map (·, count)

/-- The same move through a buffer of its own: the region is read whole and then written. -/
def copyThrough (buf : List α) (dest src n : Nat) : List α × Nat :=
  let count := min n (min (buf.length - dest) (buf.length - src))
  (buf.take dest ++ (buf.drop src).take count ++ buf.drop (dest + count), count)

/-- How a copy up to a stop unit ended. -/
inductive CopyEnd where
  /-- The stop unit stands at offset `index` of the source and was not copied. -/
  | stopped (index : Nat)
  /-- `copied` units were copied, and none of them is the stop unit. -/
  | exhausted (copied : Nat)
  deriving DecidableEq

/-- Where the copy stands, counted from one unit further on. -/
def CopyEnd.shift : CopyEnd → CopyEnd
  | stopped i => stopped (i + 1)
  | exhausted n => exhausted (n + 1)

/-- Overwrites the start of `dest` with `src` until the stop unit is met or `limit` units are
copied. -/
def copyUntil (dest src : List α) (stop : α) (limit : Nat) : List α × CopyEnd :=
  match limit, dest, src with
  | n + 1, d :: dest, a :: src =>
    if a = stop then (d :: dest, .stopped 0)
    else
      let (rest, ending) := copyUntil dest src stop n
      (a :: rest, ending.shift)
  | _, dest, _ => (dest, .exhausted 0)

/-- Copies until `stop` has been copied or `n` units are done. Answers the offset after the copied
`stop`, or `none` if it was not met. -/
def copyThroughStop (dest src : List α) (stop : α) (n : Nat) : List α × Option Nat :=
  match copyUntil dest src stop n with
  | (dest, .stopped i) => (dest.set i stop, some (i + 1))
  | (dest, .exhausted _) => (dest, none)

/-- Sets the first `n` units of `dest`; answers how many. -/
def fill (dest : List α) (a : α) (n : Nat) : List α × Nat :=
  let count := min n dest.length
  (List.replicate count a ++ dest.drop count, count)

/-- Runs a routine on the part of a buffer that starts at offset `i` and puts the part back. -/
def onSuffix {ρ : Type} (buf : List α) (i : Nat) (routine : List α → List α × ρ) : List α × ρ :=
  let (part, answer) := routine (buf.drop i)
  (buf.take i ++ part, answer)

end CText.Buffer
