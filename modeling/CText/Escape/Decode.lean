import CText.CString.Basic
import CText.Error
import CText.Escape.Basic
import CText.Reserve
import CText.Text.Utf8

/-!
# Reading escapes

What follows a backslash is looked at in a fixed order: the letters, octal digits, `x`, `u` and `U`
with hexadecimal digits, a caret and a control character, the names of control bytes, and any
punctuation mark, which stands for itself. A sequence that begins like one of these and does not go
on like it is always an error. What is done about a sequence that begins like none of them is the
caller's choice. An error tells the offset of the backslash.
-/

namespace CText.Escape

/-- What an escape stands for. -/
inductive Value where
  | byte (b : UInt8)
  | scalar (c : Char)
  | unknown
  deriving DecidableEq

/-- The number that up to `limit` digits at the front denote, and how many of them there are. -/
def readDigits (radix : Nat) : (limit : Nat) → List UInt8 → Nat × Nat
  | limit, s =>
    let digits := (s.take limit).takeWhile fun c => (Ascii.digitValue radix c).isSome
    (digits.foldl (fun n c => n * radix + (Ascii.digitValue radix c).getD 0) 0, digits.length)

def readScalar (n : Nat) : Except Malformed Value :=
  match Utf8.scalar? n with
  | some c => .ok (.scalar c)
  | none => .error .notScalar

/-- Reads an octal escape: up to three digits, of which the first is already seen. -/
def readOctal (s : List UInt8) : Except Malformed (Value × Nat) :=
  let (n, count) := readDigits 8 3 s
  if n < 256 then .ok (.byte n.toUInt8, count) else .error .octalTooLarge

/-- Reads the one or two digits after `x`. -/
def readHex (s : List UInt8) : Except Malformed (Value × Nat) :=
  let (n, count) := readDigits 16 2 s
  if count = 0 then .error .missingHexDigits else .ok (.byte n.toUInt8, 1 + count)

/-- Reads up to six digits, after any number of zeros, and a closing brace. -/
def readBraced (s : List UInt8) : Except Malformed (Value × Nat) :=
  let zeros := (s.takeWhile (· == 48)).length
  let (n, count) := readDigits 16 6 (s.drop zeros)
  if 0 < zeros + count ∧ s[zeros + count]? = some 125 then
    (readScalar n).map (·, 3 + zeros + count)
  else .error .badBracedScalar

/-- Reads exactly `count` digits after `u` or `U`. -/
def readFixed (count : Nat) (fault : Malformed) (s : List UInt8) :
    Except Malformed (Value × Nat) :=
  let (n, found) := readDigits 16 count s
  if found = count then (readScalar n).map (·, 1 + count) else .error fault

/-- Reads the control character after a caret: the columns from `@` to `_`, and the question
mark. -/
def readCaret (s : List UInt8) : Except Malformed (Value × Nat) :=
  match s with
  | c :: _ =>
    if 64 ≤ c ∧ c ≤ 95 then .ok (.byte (c - 64), 2)
    else if c = 63 then .ok (.byte 0x7F, 2)
    else .error .badCaret
  | [] => .error .badCaret

def readName (s : List UInt8) : Value × Nat :=
  match names.find? fun (name, _) => name.isPrefixOf s with
  | some (name, b) => (.byte b, name.length)
  | none => (.unknown, 0)

/-- Reads what follows a backslash: what the escape stands for and how many bytes after the
backslash belong to it, none if it is unknown. -/
def readEscape : List UInt8 → Except Malformed (Value × Nat)
  | [] => .ok (.unknown, 0)
  | c :: rest =>
    match byteOf? c with
    | some b => .ok (.byte b, 1)
    | none =>
      if Ascii.isOctalDigit c then readOctal (c :: rest)
      else if c = Ascii.byte 'x' then readHex rest
      else if c = Ascii.byte 'u' then
        match rest with
        | 123 :: digits => readBraced digits
        | _ => readFixed 4 .shortScalarDigits rest
      else if c = Ascii.byte 'U' ∧ rest.head?.any fun d => (Ascii.digitValue 16 d).isSome then
        readFixed 8 .longScalarDigits rest
      else if c = Ascii.byte '^' then readCaret rest
      else if Ascii.isUpper c then .ok (readName (c :: rest))
      else if Ascii.isPunct c then .ok (.byte c, 1)
      else .ok (.unknown, 0)

/-- How a value is written, or the refusal of an unknown escape. -/
def write (flags : Flags) : Value → Except Malformed (List UInt8)
  | .byte b => .ok (if b = 0 ∧ !flags.raw then modifiedNul else [b])
  | .scalar c =>
    if flags.raw then
      if c.toNat < 256 then .ok [c.toNat.toUInt8] else .error .scalarTooLarge
    else .ok (if c.toNat = 0 then modifiedNul else Utf8.encodeChar c)
  | .unknown => .error .unknownEscape

/-- What a backslash and the bytes after it become, and how many of those bytes are used up. An
unknown escape takes the byte after the backslash with it, if there is one. -/
def decodeEscape (flags : Flags) (rest : List UInt8) : Except Malformed (List UInt8 × Nat) :=
  match readEscape rest with
  | .error fault => .error fault
  | .ok (.unknown, used) =>
    let whole := rest.take (used + 1)
    if flags.keepUnknown then .ok (backslash :: whole, whole.length)
    else if flags.dropUnknown then .ok (whole.drop used, whole.length)
    else .error .unknownEscape
  | .ok (value, used) => (write flags value).map (·, used)

/-- Decodes the bytes from `offset` on into a text of its own. -/
def decodeFrom (flags : Flags) (s : List UInt8) (offset : Nat) : Except Error (List UInt8) :=
  match s with
  | [] => .ok []
  | c :: rest =>
    if c = backslash then
      match decodeEscape flags rest with
      | .error fault => .error (.invalidFormat fault offset)
      | .ok (out, used) =>
        (decodeFrom flags (rest.drop used) (offset + 1 + used)).map (out ++ ·)
    else (decodeFrom flags rest (offset + 1)).map (c :: ·)
termination_by s.length
decreasing_by
  · simp only [List.length_drop, List.length_cons]
    omega
  · simp

def decode (flags : Flags) (s : List UInt8) : Except Error (List UInt8) :=
  decodeFrom flags (CString.content s) 0

/-- Decodes a string into a buffer of its own, as long as the string. -/
def unescape (s : List UInt8) (flags : Flags) : Except Error (List UInt8) := do
  reserve 1 (CString.content s).length
  decode flags s

end CText.Escape
