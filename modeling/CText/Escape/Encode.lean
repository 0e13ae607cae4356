import CText.CString.Basic
import CText.Error
import CText.Escape.Basic
import CText.Reserve

/-!
# Writing escapes

Control bytes, the backslash and a quote of the caller's choice are escaped; every other byte
stands for itself. An octal escape always has three digits, except that the modified zero is
written with one where no digit follows, so that reading never takes a byte of what comes after.
-/

namespace CText.Escape

/-- The last three bits of a number shifted down, as an octal digit. -/
def octalDigit (c : UInt8) (shift : UInt8) : UInt8 := 48 + ((c >>> shift) &&& 7)

/-- How a byte is written, a zero as `quote` meaning that there is none. -/
def encodeByte (quote c : UInt8) : List UInt8 :=
  match letterOf? c with
  | some letter => [backslash, letter]
  | none =>
    if c = 0x7F then backslash :: Ascii.bytes "177"
    else if quote ≠ 0 ∧ c = quote then [backslash, c]
    else if c < 0x20 then [backslash, octalDigit c 6, octalDigit c 3, octalDigit c 0]
    else [c]

/-- How the modified zero is written before `rest`. -/
def encodeNul (rest : List UInt8) : List UInt8 :=
  if rest.head?.any Ascii.isOctalDigit then backslash :: Ascii.bytes "000"
  else backslash :: Ascii.bytes "0"

def encode (quote : UInt8) : List UInt8 → List UInt8
  | [] => []
  | [c] => encodeByte quote c
  | c :: d :: rest =>
    if [c, d] = modifiedNul then encodeNul rest ++ encode quote rest
    else encodeByte quote c ++ encode quote (d :: rest)

def needsEscape (quote c : UInt8) : Bool :=
  c < 0x20 || c == 0x7F || c == backslash || (quote != 0 && c == quote)

def hasModifiedNul : List UInt8 → Bool
  | c :: d :: rest => [c, d] = modifiedNul || hasModifiedNul (d :: rest)
  | _ => false

def isPlain (quote : UInt8) (s : List UInt8) : Bool :=
  !s.any (needsEscape quote) && !hasModifiedNul s

/-- The room asked for to escape a string: four bytes for each of its own, unless nothing has to
be escaped. -/
def room (quote : UInt8) (s : List UInt8) : Nat := if isPlain quote s then s.length else s.length * 4

/-- Escapes a string. A quote that is a letter or a digit could be taken for an escape and is
refused, and so is every other byte that is no punctuation mark. -/
def escape (s : List UInt8) (quote : UInt8) : Except Error (List UInt8) :=
  if quote ≠ 0 ∧ !Ascii.isPunct quote then .error (.invalidFormat .badQuote 0)
  else do
    let s := CString.content s
    reserve 1 (room quote s)
    return if isPlain quote s then s else encode quote s

end CText.Escape
