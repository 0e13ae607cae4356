import CText.Checked.CString
import CText.Path.InPlace
import CText.Path.Resolve

/-!
# Paths, step by step

Paths with the offsets that are worked out on the way: the cursors of the two passes that clean a
path in its buffer, the ranges that a last component and a directory are, and the sizes of the
buffers that are asked for.
-/

namespace CText.Checked

open Buffer Escape CText.Path

/-! ## Cleaning -/

/-- Where the component that goes on at `start` ends. -/
def componentEnd (buf : List UInt8) (start : Nat) : Except Violation Nat := do
  match (← behind buf start).findIdx? (· == slash) with
  | some i => add start i
  | none => return buf.length

/-- Writes the component from `r` to `stop` behind the `w` bytes written so far, after a slash
unless it is the first; answers the buffer and the new write cursor. -/
def writeComponent (base : Nat) (buf : List UInt8) (r stop w : Nat) :
    Except Violation (List UInt8 × Nat) := do
  let (buf, w) ← if base < w then (do return (← store buf w slash, ← add w 1)) else pure (buf, w)
  if w ≤ r then
    let written ← copyDown buf r stop w
    return (written, ← add w (← sub stop r))
  else throw .cursorOvertaken

/-- The first pass, in at most so many turns. -/
def collapse (base : Nat) (buf : List UInt8) (r w : Nat) :
    (turns : Nat) → Except Violation (List UInt8)
  | 0 => return buf.take w
  | turns + 1 => do
    if r < buf.length then
      let c ← fetch buf r
      if c = slash then collapse base buf (← add r 1) w turns
      else
        let stop ← componentEnd buf r
        if (← slice buf r stop) = dot then collapse base buf stop w turns
        else
          let (written, w) ← writeComponent base buf r stop w
          collapse base written stop w turns
    else return buf.take w

/-- The write cursor with the last written component taken away. -/
def dropLast (base : Nat) (buf : List UInt8) (w : Nat) : Except Violation Nat := do
  match lastIndex (· == slash) (← slice buf base w) with
  | some i => add base i
  | none => return base

/-- The second pass, in at most so many turns. -/
def resolve (rooted : Bool) (base : Nat) (buf : List UInt8) (r w depth : Nat) :
    (turns : Nat) → Except Violation (List UInt8)
  | 0 => return buf.take w
  | turns + 1 => do
    if r < buf.length then
      let stop ← componentEnd buf r
      let part ← slice buf r stop
      if part = dotdot ∧ 0 < depth then
        let w ← dropLast base buf w
        resolve rooted base buf (← add stop 1) w (← sub depth 1) turns
      else if part = dotdot ∧ rooted then resolve rooted base buf (← add stop 1) w depth turns
      else
        let (written, w) ← writeComponent base buf r stop w
        let depth ← if part = dotdot then pure depth else add depth 1
        resolve rooted base written (← add stop 1) w depth turns
    else return buf.take w

def clean (path : List UInt8) : Except Violation (List UInt8) := do
  let path ← content path
  let rooted := isAbsolute path
  let base := if rooted then 1 else 0
  let path ← collapse base path base base path.length
  let path ← resolve rooted base path base base 0 path.length
  return if path.isEmpty then dot else path

/-! ## Parts of a path -/

/-- The bytes up to and including the one at offset `last`. -/
def through (path : List UInt8) (last : Nat) : Except Violation (List UInt8) := do
  front path (← add last 1)

def basename (path : List UInt8) : Except Violation (List UInt8) := do
  let path ← content path
  if path.isEmpty then return dot
  else match lastIndex (· != slash) path with
    | none => return [slash]
    | some last =>
      let trimmed ← through path last
      match lastIndex (· == slash) trimmed with
      | some i => behind trimmed (← add i 1)
      | none => behind trimmed 0

def dirname (path : List UInt8) : Except Violation (List UInt8) := do
  let path ← content path
  match lastIndex (· != slash) path with
  | none => return if path.isEmpty then dot else [slash]
  | some last => match lastIndex (· == slash) (← through path last) with
    | none => return dot
    | some separator => match lastIndex (· != slash) (← front path separator) with
      | some stop => through path stop
      | none => return [slash]

/-! ## Absolute and relative paths -/

def fixedDirectory (dir : List UInt8) : Except Failure (List UInt8) := do
  let dir ← checked (content dir)
  granted (reserve 1 dir.length)
  return dir

def join (dir file : List UInt8) : Except Failure (List UInt8) := do
  let size ← checked (do add (← add dir.length 1) file.length)
  granted (reserve 1 size)
  return dir ++ slash :: file

def absolute (file : List UInt8) (reference : Option (List UInt8))
    (cwd : Except Failure (List UInt8)) : Except Failure (List UInt8) := do
  let file ← checked (content file)
  if isAbsolute file then
    granted (reserve 1 file.length)
    checked (clean file)
  else match reference with
    | some dir =>
      let dir ← checked (content dir)
      if isAbsolute dir then checked (clean (← join dir file))
      else checked (clean (← join (← join (← cwd) dir) file))
    | none => checked (clean (← join (← cwd) file))

def relative (file : List UInt8) (reference : Option (List UInt8))
    (cwd : Except Failure (List UInt8)) : Except Failure (List UInt8) := do
  let file ← absolute file none cwd
  let reference ← absolute (reference.getD dot) none cwd
  let fileParts := components file
  let referenceParts := components reference
  let common := commonLength fileParts referenceParts
  let ups ← checked (sub referenceParts.length common)
  let rest ← checked (slice fileParts common fileParts.length)
  let size ← checked (do add (← mul ups 3) file.length)
  granted (reserve 1 size)
  return ofComponents false (List.replicate ups dotdot ++ rest)

end CText.Checked
