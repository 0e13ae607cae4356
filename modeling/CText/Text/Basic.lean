import CText.Ascii
import CText.Fields
import CText.Text.Unprinted

/-!
# Texts

How texts are taken apart, into blanks and what they surround and into lines, how numbers are read
from them and written, and how texts stand in messages.

The blanks are the characters that Unicode calls white space. Among the control characters these
are the five from tab to carriage return and the next-line character; the separators of one-byte
files and the zero-width characters are none.
-/

namespace CText.Text

/-! ## Blanks -/

def isBlank (c : Char) : Bool :=
  let n := c.toNat
  (0x09 ≤ n && n ≤ 0x0D) || n == 0x20 || n == 0x85 || n == 0xA0 || n == 0x1680
    || (0x2000 ≤ n && n ≤ 0x200A) || n == 0x2028 || n == 0x2029 || n == 0x202F || n == 0x205F
    || n == 0x3000

/-- A text without the blanks at its two ends. -/
def trim (text : List Char) : List Char :=
  ((text.dropWhile isBlank).reverse.dropWhile isBlank).reverse

/-! ## Lines

A line ends with a line feed, or with a carriage return and a line feed. What stands after the last
line feed is a line if it is not empty, and a carriage return at its end belongs to it. -/

def dropReturn (line : List Char) : List Char :=
  if line.getLast? = some '\r' then line.dropLast else line

/-- The lines whose ends are the ends of the given fields, except that the last is not ended. -/
def endLines : List (List Char) → List (List Char)
  | [] => []
  | [last] => if last.isEmpty then [] else [last]
  | line :: next :: rest => dropReturn line :: endLines (next :: rest)

def lines (text : List Char) : List (List Char) := endLines (fields (· == '\n') text)

/-! ## Numbers

A numeral is a run of digits, perhaps after a plus sign, in some radix. It is read from the left, so
that of a digit too many and a byte that is no digit the one that stands first is reported. -/

inductive NumeralFault where
  | empty
  | invalidDigit
  | tooLarge
  deriving DecidableEq

def NumeralFault.message : NumeralFault → String
  | empty => "cannot parse integer from empty string"
  | invalidDigit => "invalid digit found in string"
  | tooLarge => "number too large to fit in target type"

/-- Reads digits after a number read so far, all numbers staying below `limit`. -/
def readDigits (radix limit : Nat) (n : Nat) : List UInt8 → Except NumeralFault Nat
  | [] => .ok n
  | c :: rest => match Ascii.digitValue radix c with
    | none => .error .invalidDigit
    | some d =>
      if n * radix + d < limit then readDigits radix limit (n * radix + d) rest
      else .error .tooLarge

/-- A sign is read only in front of a digit, or of what should be one. -/
def readUnsigned (radix limit : Nat) (s : List UInt8) : Except NumeralFault Nat :=
  match s with
  | [] => .error .empty
  | [c] => readDigits radix limit 0 [c]
  | c :: rest => if c = Ascii.byte '+' then readDigits radix limit 0 rest
    else readDigits radix limit 0 (c :: rest)

/-- A decimal number with zeros in front up to a width. -/
def padded (width n : Nat) : List Char :=
  let digits := Nat.toDigits 10 n
  List.replicate (width - digits.length) '0' ++ digits

/-! ## Texts between quotes, for messages

In a message a text stands between double quotes and a character between single ones. The quote that
is used, the backslash and what does not print are written as escapes. -/

def numberEscape (c : Char) : List Char :=
  '\\' :: 'u' :: '\x7b' :: Nat.toDigits 16 c.toNat ++ ['\x7d']

def literalChar (quote c : Char) : List Char :=
  if c = quote ∨ c = '\\' then ['\\', c]
  else if c = '\n' then ['\\', 'n']
  else if c = '\t' then ['\\', 't']
  else if c = '\r' then ['\\', 'r']
  else if c.toNat = 0 then ['\\', '0']
  else if isUnprinted c then numberEscape c
  else [c]

def literal (s : String) : String :=
  String.ofList ('\"' :: s.toList.flatMap (literalChar '\"') ++ ['\"'])

def charLiteral (c : Char) : String := String.ofList ('\'' :: literalChar '\'' c ++ ['\''])

end CText.Text
