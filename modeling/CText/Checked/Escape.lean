import CText.Checked.CString
import CText.Escape.Decode
import CText.Escape.Encode

/-!
# Escapes, step by step

Writing and reading escapes with the offsets, ranges and numbers that are worked out on the way. An
octal digit is made in a byte, the number of an escape in 32 bits.
-/

namespace CText.Checked

open Buffer Escape

/-! ## Writing -/

def isPlain (quote : UInt8) (s : List UInt8) : Except Violation Bool := do
  if s.any (needsEscape quote) then return false
  else return !(← windows 2 s).any (· == modifiedNul)

def octalDigit (c shift : UInt8) : Except Violation UInt8 := do
  return (← addBelow 256 48 ((c >>> shift) &&& 7).toNat).toUInt8

def encodeByte (quote c : UInt8) : Except Violation (List UInt8) := do
  match letterOf? c with
  | some letter => return [backslash, letter]
  | none =>
    if c = 0x7F then return backslash :: Ascii.bytes "177"
    else if quote ≠ 0 ∧ c = quote then return [backslash, c]
    else if c < 0x20 then
      return [backslash, ← octalDigit c 6, ← octalDigit c 3, ← octalDigit c 0]
    else return [c]

/-- Escapes the bytes from offset `i` on, in at most so many turns. -/
def encodeFrom (quote : UInt8) (s : List UInt8) (i : Nat) :
    (turns : Nat) → Except Violation (List UInt8)
  | 0 => return []
  | turns + 1 => do
    if i < s.length then
      let c ← fetch s i
      if modifiedNul.isPrefixOf (← behind s i) then
        let next ← add i 2
        return encodeNul (s.drop next) ++ (← encodeFrom quote s next turns)
      else
        let out ← encodeByte quote c
        return out ++ (← encodeFrom quote s (← add i 1) turns)
    else return []

def escape (s : List UInt8) (quote : UInt8) : Except Failure (List UInt8) := do
  if quote ≠ 0 ∧ !Ascii.isPunct quote then throw (.error (.invalidFormat .badQuote 0))
  else
    let s ← checked (content s)
    if ← checked (isPlain quote s) then
      granted (reserve 1 s.length)
      return s
    else
      granted (reserve 1 (← checked (mul s.length 4)))
      checked (encodeFrom quote s 0 s.length)

/-! ## Reading -/

/-- Reads up to `left` digits behind `count` digits that begin at `pos` and denote `value`. -/
def readDigits (s : List UInt8) (pos radix value count : Nat) :
    (left : Nat) → Except Violation (Nat × Nat)
  | 0 => return (value, count)
  | left + 1 => do
    match s[← add pos count]?.bind (Ascii.digitValue radix) with
    | none => return (value, count)
    | some d =>
      let next ← addBelow 4294967296 (← mulBelow 4294967296 value radix) d
      readDigits s pos radix next (← add count 1) left

/-- What is wrong with the escape at an offset. -/
def refused {α : Type} (fault : Malformed) (start : Nat) : Except Failure α :=
  .error (.error (.invalidFormat fault start))

/-- The character with a number, at the offset that an escape ends at. -/
def endingAt (start n stop : Nat) : Except Failure (Value × Nat) :=
  match readScalar n with
  | .ok value => .ok (value, stop)
  | .error fault => refused fault start

/-- Reads digits in braces, the letter before them being at `pos`. -/
def readBraced (s : List UInt8) (start pos : Nat) : Except Failure (Value × Nat) := do
  let opened ← checked (add pos 2)
  let zeros := ((← checked (behind s opened)).takeWhile (· == 48)).length
  let digits ← checked (add opened zeros)
  let (n, count) ← checked (readDigits s digits 16 0 0 6)
  if 0 < zeros + count ∧ s[← checked (add digits count)]? = some 125 then
    endingAt start n (← checked (do add (← add (← add pos 3) zeros) count))
  else refused .badBracedScalar start

/-- Reads exactly `count` digits behind the letter at `pos`. -/
def readFixed (count : Nat) (fault : Malformed) (s : List UInt8) (start pos : Nat) :
    Except Failure (Value × Nat) := do
  let (n, found) ← checked (readDigits s (← checked (add pos 1)) 16 0 0 count)
  if found = count then endingAt start n (← checked (add pos (1 + count)))
  else refused fault start

/-- Reads the control character behind the caret at `pos`. -/
def readCaret (s : List UInt8) (start pos : Nat) : Except Failure (Value × Nat) := do
  match s[← checked (add pos 1)]? with
  | some c =>
    if 64 ≤ c ∧ c ≤ 95 then
      return (.byte (← checked (sub c.toNat 64)).toUInt8, ← checked (add pos 2))
    else if c = 63 then return (.byte 0x7F, ← checked (add pos 2))
    else refused .badCaret start
  | none => refused .badCaret start

def readName (s : List UInt8) (pos : Nat) : Except Violation (Value × Nat) := do
  let text ← behind s pos
  match names.find? fun (name, _) => name.isPrefixOf text with
  | some (name, b) => return (.byte b, ← add pos name.length)
  | none => return (.unknown, pos)

/-- Reads the escape with its backslash at `start`: what it stands for and where it ends. -/
def readEscape (s : List UInt8) (start : Nat) : Except Failure (Value × Nat) := do
  let pos ← checked (add start 1)
  match s[pos]? with
  | none => return (.unknown, pos)
  | some c => match byteOf? c with
    | some b => return (.byte b, ← checked (add pos 1))
    | none =>
      if Ascii.isOctalDigit c then
        let (n, count) ← checked (readDigits s pos 8 0 0 3)
        if n < 256 then return (.byte n.toUInt8, ← checked (add pos count))
        else refused .octalTooLarge start
      else if c = Ascii.byte 'x' then
        let digits ← checked (add pos 1)
        let (n, count) ← checked (readDigits s digits 16 0 0 2)
        if count = 0 then refused .missingHexDigits start
        else return (.byte n.toUInt8, ← checked (add digits count))
      else if c = Ascii.byte 'u' then
        if s[← checked (add pos 1)]? = some 123 then readBraced s start pos
        else readFixed 4 .shortScalarDigits s start pos
      else if c = Ascii.byte 'U' ∧
          s[← checked (add pos 1)]?.any fun d => (Ascii.digitValue 16 d).isSome then
        readFixed 8 .longScalarDigits s start pos
      else if c = Ascii.byte '^' then readCaret s start pos
      else if Ascii.isUpper c then checked (readName s pos)
      else if Ascii.isPunct c then return (.byte c, ← checked (add pos 1))
      else return (.unknown, pos)

/-- One turn of decoding in place: what stands at the read cursor `r` is read, and what it becomes
is written at the write cursor `w`. -/
def decodeTurn (flags : Flags) (buf : List UInt8) (r w : Nat) :
    Except Failure (List UInt8 × Nat × Nat) := do
  let c ← checked (fetch buf r)
  if c ≠ backslash then
    let written ← checked (store buf w c)
    return (written, ← checked (add r 1), ← checked (add w 1))
  else match ← readEscape buf r with
    | (.unknown, stop) =>
      if flags.keepUnknown then
        let stop := min (← checked (add stop 1)) buf.length
        let written ← checked (do storeAll buf w (← slice buf r stop))
        return (written, stop, ← checked (do add w (← sub stop r)))
      else if flags.dropUnknown then
        let next := (buf.drop stop).take 1
        let written ← checked (storeAll buf w next)
        return (written, min (← checked (add stop 1)) buf.length, ← checked (add w next.length))
      else refused .unknownEscape r
    | (value, stop) => match write flags value with
      | .error fault => refused fault r
      | .ok out =>
        let outEnd ← checked (add w out.length)
        if outEnd ≤ stop then
          let written ← checked (replace buf w outEnd out)
          return (written, stop, outEnd)
        else throw (.violation .cursorOvertaken)

/-- Decodes from the read cursor `r` on, in at most so many turns. -/
def decodeWithin (flags : Flags) (buf : List UInt8) (r w : Nat) :
    (turns : Nat) → Except Failure (List UInt8)
  | 0 => return buf.take w
  | turns + 1 => do
    if r < buf.length then
      let (written, r, w) ← decodeTurn flags buf r w
      decodeWithin flags written r w turns
    else return buf.take w

def unescape (s : List UInt8) (flags : Flags) : Except Failure (List UInt8) := do
  let s ← checked (content s)
  granted (reserve 1 s.length)
  decodeWithin flags s 0 0 s.length

end CText.Checked
