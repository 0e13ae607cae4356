import CText.Buffer.Copy
import CText.Buffer.Order
import CText.Buffer.Scan
import CText.Checked.Basic

/-!
# Routines on buffers, step by step

The routines on buffers as they go through their buffers by offsets. Whatever is read or written
outside a buffer, copied to a range of another length or counted beyond the width of a count is a
violation.
-/

namespace CText.Checked

open Buffer

variable {α : Type} [DecidableEq α]

def front (buf : List α) (n : Nat) : Except Violation (List α) := slice buf 0 n

def behind (buf : List α) (i : Nat) : Except Violation (List α) := slice buf i buf.length

/-- Writes units over those from offset `start` up to offset `stop`, which must be as many. -/
def replace (buf : List α) (start stop : Nat) (units : List α) : Except Violation (List α) := do
  let old ← slice buf start stop
  if units.length = old.length then return buf.take start ++ units ++ buf.drop stop
  else throw (.lengthsDiffer units.length old.length)

def scanForward (buf : List α) (needle : α) (limit : Nat) : Except Violation (Option Nat) := do
  return (← front buf (min limit buf.length)).findIdx? (· == needle)

def scanBackward (buf : List α) (needle : α) (limit : Nat) : Except Violation (Option Nat) := do
  return lastIndex (· == needle) (← front buf (min limit buf.length))

def copyDisjoint (dest src : List α) (n : Nat) : Except Violation (List α × Nat) := do
  let count := min n (min dest.length src.length)
  return (← replace dest 0 count (← front src count), count)

def fill (dest : List α) (a : α) (n : Nat) : Except Violation (List α × Nat) := do
  let count := min n dest.length
  return (← replace dest 0 count (List.replicate count a), count)

def fillBetween (buf : List α) (a : α) (start stop : Nat) : Except Violation (List α) := do
  let (part, _) ← fill (← slice buf start stop) a (← sub stop start)
  replace buf start stop part

def onBehind {ρ : Type} (buf : List α) (i : Nat)
    (routine : List α → Except Violation (List α × ρ)) : Except Violation (List α × ρ) := do
  let (part, answer) ← routine (← behind buf i)
  return (buf.take i ++ part, answer)

/-- Copies units from offset `i` on until the stop unit is met or `left` units are copied. -/
def copyUntilFrom (dest src : List α) (stop : α) (i : Nat) :
    (left : Nat) → Except Violation (List α × CopyEnd)
  | 0 => return (dest, .exhausted i)
  | left + 1 => do
    let a ← fetch src i
    if a = stop then return (dest, .stopped i)
    else copyUntilFrom (← store dest i a) src stop (i + 1) left

def copyUntil (dest src : List α) (stop : α) (limit : Nat) : Except Violation (List α × CopyEnd) :=
  copyUntilFrom dest src stop 0 (min limit (min dest.length src.length))

def copyThroughStop (dest src : List α) (stop : α) (n : Nat) :
    Except Violation (List α × Option Nat) := do
  match ← copyUntil dest src stop n with
  | (dest, .stopped i) => return (← store dest i stop, some (← add i 1))
  | (dest, .exhausted _) => return (dest, none)

def copyOverlapping (buf : List α) (dest src n : Nat) : Except Violation (List α × Nat) := do
  let count := min n (min (buf.length - dest) (buf.length - src))
  if count = 0 ∨ dest = src then return (buf, count)
  else
    let stop ← add src count
    let _ ← add dest count
    if src < dest ∧ dest < stop then return (← moveDown buf dest src count, count)
    else return (← moveUp buf dest src count, count)

section

variable [CodeUnit α]

def compareUnsigned (s t : List α) (n : Nat) : Except Violation Ordering := do
  let count := min n (min s.length t.length)
  return Buffer.compareUnsigned (← front s count) (← front t count) count

def compareSigned (s t : List α) (n : Nat) : Except Violation Int := do
  let count := min n (min s.length t.length)
  return Buffer.compareSigned (← front s count) (← front t count) count

end

/-- Searches for a block from offset `pos` on; `last` is the last offset at which it can stand. -/
def findBlockFrom (hay needle : List α) (first : α) (last : Nat) (pos : Nat) :
    (turns : Nat) → Except Violation (Option Nat)
  | 0 => return none
  | turns + 1 =>
    if pos ≤ last then do
      let room ← add (← sub last pos) 1
      match ← scanForward (← behind hay pos) first room with
      | none => return none
      | some i =>
        let hit ← add pos i
        if (← slice hay hit (← add hit needle.length)) = needle then return some hit
        else findBlockFrom hay needle first last (← add hit 1) turns
    else return none

def findBlock (hay needle : List α) : Except Violation (Option Nat) := do
  if needle.isEmpty then return some 0
  else if hay.length < needle.length then return none
  else
    let first ← fetch needle 0
    let last ← sub hay.length needle.length
    findBlockFrom hay needle first last 0 (last + 1)

end CText.Checked
