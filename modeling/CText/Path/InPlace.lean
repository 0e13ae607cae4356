import CText.Buffer.Copy
import CText.Path.Basic

/-!
# Cleaning a path where it lies

The path is cleaned in its own buffer by two passes, each with a read cursor and a write cursor
that runs behind it. The first pass drops empty components and dots. The second takes a written
component away for every pair of dots that has one before it, by searching the written part for
its last slash, and counts the components that can be taken away. A write cursor that overtakes
its read cursor, and an access outside the buffer, are violations.
-/

namespace CText.Path

open Buffer

/-- Copies the bytes from `start` to `stop` down to the write cursor `w`. -/
def copyDown (buf : List UInt8) (start stop w : Nat) : Except Violation (List UInt8) := do
  storeAll buf w (← slice buf start stop)

/-- Where the component that goes on at `start` ends. -/
def componentEnd (buf : List UInt8) (start : Nat) : Nat :=
  start + ((buf.drop start).takeWhile (· != slash)).length

theorem le_componentEnd (buf : List UInt8) (start : Nat) : start ≤ componentEnd buf start :=
  Nat.le_add_right _ _

/-- Writes the component from `r` to `stop` behind the `w` bytes written so far, after a slash
unless it is the first; answers the buffer and the new write cursor. -/
def writeComponent (base : Nat) (buf : List UInt8) (r stop w : Nat) :
    Except Violation (List UInt8 × Nat) := do
  let (buf, w) ← if base < w then (do return (← store buf w slash, w + 1)) else pure (buf, w)
  if w ≤ r then
    return (← copyDown buf r stop w, w + (stop - r))
  else throw .cursorOvertaken

/-- The first pass: from `r` on, copies the components that are neither empty nor the dot. `len` is
the length of the buffer. -/
def collapse (base len : Nat) (buf : List UInt8) (r w : Nat) : Except Violation (List UInt8) :=
  if _h : r < len then do
    let c ← fetch buf r
    if c = slash then collapse base len buf (r + 1) w
    else
      let stop := componentEnd buf (r + 1)
      if (← slice buf r stop) = dot then collapse base len buf stop w
      else
        let (written, w) ← writeComponent base buf r stop w
        collapse base len written stop w
  else .ok (buf.take w)
termination_by len - r
decreasing_by
  · omega
  all_goals
    have := le_componentEnd buf (r + 1)
    omega

/-- The write cursor with the last written component taken away. -/
def dropLast (base : Nat) (buf : List UInt8) (w : Nat) : Except Violation Nat := do
  match lastIndex (· == slash) (← slice buf base w) with
  | some i => return base + i
  | none => return base

/-- The second pass: from `r` on, resolves pairs of dots. `depth` counts the written components
that a pair of dots can take away. -/
def resolve (rooted : Bool) (base len : Nat) (buf : List UInt8) (r w depth : Nat) :
    Except Violation (List UInt8) :=
  if _h : r < len then do
    let stop := componentEnd buf r
    let part ← slice buf r stop
    if part = dotdot ∧ 0 < depth then
      let w ← dropLast base buf w
      resolve rooted base len buf (stop + 1) w (depth - 1)
    else if part = dotdot ∧ rooted then resolve rooted base len buf (stop + 1) w depth
    else
      let (written, w) ← writeComponent base buf r stop w
      resolve rooted base len written (stop + 1) w (if part = dotdot then depth else depth + 1)
  else .ok (buf.take w)
termination_by len - r
decreasing_by
  all_goals
    have := le_componentEnd buf r
    omega

def cleanInPlace (path : List UInt8) : Except Violation (List UInt8) := do
  let path := CString.content path
  let rooted := isAbsolute path
  let base := if rooted then 1 else 0
  let path ← collapse base path.length path base base
  let path ← resolve rooted base path.length path base base 0
  return if path.isEmpty then dot else path

end CText.Path
