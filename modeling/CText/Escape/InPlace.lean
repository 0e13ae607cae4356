import CText.Buffer.Copy
import CText.Escape.Decode

/-!
# Decoding escapes where they lie

The string is decoded in its own buffer with a read cursor and a write cursor. An escape is at
least as long as what it stands for, so the write cursor never passes the read cursor and no byte
is overwritten before it is read. This is not assumed: a decoded escape that would reach beyond the
bytes it was read from, and an access outside the buffer, end the run with a violation.
-/

namespace CText.Escape

open Buffer

/-- How decoding in place can fail. -/
inductive Failure where
  | error (e : Error)
  | violation (v : Violation)
  deriving DecidableEq

/-- Counts a violation as a failure. -/
def checked {α : Type} : Except Violation α → Except Failure α
  | .ok a => .ok a
  | .error v => .error (.violation v)

/-- Decodes from the read cursor `r` on, the `w` bytes in front being final. `len` is the length of
the buffer. -/
def decodeWithin (flags : Flags) (len : Nat) (buf : List UInt8) (r w : Nat) :
    Except Failure (List UInt8) :=
  if _h : r < len then do
    let c ← checked (fetch buf r)
    if c ≠ backslash then
      let written ← checked (store buf w c)
      decodeWithin flags len written (r + 1) (w + 1)
    else match readEscape (buf.drop (r + 1)) with
      | .error fault => throw (.error (.invalidFormat fault r))
      | .ok (.unknown, used) =>
        let stop := min (r + 1 + used + 1) len
        if flags.keepUnknown then
          let written ← checked (do storeAll buf w (← slice buf r stop))
          decodeWithin flags len written stop (w + (stop - r))
        else if flags.dropUnknown then
          let next := (buf.drop (r + 1 + used)).take 1
          let written ← checked (storeAll buf w next)
          decodeWithin flags len written stop (w + next.length)
        else throw (.error (.invalidFormat .unknownEscape r))
      | .ok (value, used) =>
        match write flags value with
        | .error fault => throw (.error (.invalidFormat fault r))
        | .ok out =>
          if w + out.length ≤ r + 1 + used then
            let written ← checked (storeAll buf w out)
            decodeWithin flags len written (r + 1 + used) (w + out.length)
          else throw (.violation .cursorOvertaken)
  else .ok (buf.take w)
termination_by len - r
decreasing_by all_goals omega

def unescapeInPlace (s : List UInt8) (flags : Flags) : Except Failure (List UInt8) :=
  let s := CString.content s
  decodeWithin flags s.length s 0 0

end CText.Escape
