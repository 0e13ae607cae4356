import CText.Ascii

/-!
# Byte sizes

A size for people is a decimal number and a unit. The units are the byte and the eight powers of
1000, or of 1024, that have a letter. Which of the two bases a letter alone means is the reader's
choice; the letter `i` after it always means 1024.
-/

namespace CText.Size

inductive Base where
  | decimal
  | binary
  deriving DecidableEq

def Base.value : Base → Nat
  | decimal => 1000
  | binary => 1024

/-- The unit letters, each one power above the letter before it. -/
def letters : List UInt8 := Ascii.bytes "KMGTPEZY"

structure Marks where
  /-- The bytes that separate whole number and fraction. -/
  decimalPoints : List UInt8
  /-- The bytes that may stand between two digits of the whole number. -/
  grouping : List UInt8
  /-- The bytes that join terms, beside whitespace. -/
  separators : List UInt8
  deriving DecidableEq

/-- A point before the fraction, underscores and commas between digits, plus signs between
terms. -/
def Marks.standard : Marks := ⟨Ascii.bytes ".", Ascii.bytes "_,", Ascii.bytes "+"⟩

end CText.Size
