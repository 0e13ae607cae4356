/-!
# Classes of bytes

The grammars of this library are written in ASCII and look at one byte at a time. Every one of
them takes its idea of a digit, a space or a punctuation mark from here. Bytes from `0x80` on are
in no class.
-/

namespace CText.Ascii

def byte (c : Char) : UInt8 := c.toUInt8

def bytes (text : String) : List UInt8 := text.toList.map byte

def isDigit (c : UInt8) : Bool := 48 ≤ c && c ≤ 57

def isOctalDigit (c : UInt8) : Bool := 48 ≤ c && c ≤ 55

def isUpper (c : UInt8) : Bool := 65 ≤ c && c ≤ 90

def isLower (c : UInt8) : Bool := 97 ≤ c && c ≤ 122

def isAlpha (c : UInt8) : Bool := isUpper c || isLower c

/-- Space, and the five control bytes from horizontal tab to carriage return. -/
def isSpace (c : UInt8) : Bool := c == 32 || (9 ≤ c && c ≤ 13)

/-- Printing bytes that are neither letters nor digits nor the space. -/
def isPunct (c : UInt8) : Bool :=
  (33 ≤ c && c ≤ 47) || (58 ≤ c && c ≤ 64) || (91 ≤ c && c ≤ 96) || (123 ≤ c && c ≤ 126)

/-- The value of a digit below `radix`, letters of either case following the digits. -/
def digitValue (radix : Nat) (c : UInt8) : Option Nat :=
  let value :=
    if isDigit c then c.toNat - 48
    else if isUpper c then c.toNat - 55
    else if isLower c then c.toNat - 87
    else radix
  if value < radix then some value else none

/-- Turns capital letters into small ones and leaves all else alone. -/
def lower (c : UInt8) : UInt8 := if isUpper c then c + 32 else c

/-- The decimal digits of a number, without leading zeros. -/
def decimal (n : Nat) : List UInt8 := (Nat.toDigits 10 n).map byte

end CText.Ascii
