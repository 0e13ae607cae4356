import CText.Ascii

/-!
# The vocabulary of escapes

An escape stands for a byte or a character and begins with a backslash. The tables here are used
for writing and for reading alike. A zero byte cannot stand in a string that ends at the first
zero; it is kept there in a modified form of two bytes, which is no character otherwise.
-/

namespace CText.Escape

/-- The byte that begins an escape. -/
def backslash : UInt8 := 92

/-- The two bytes that stand for a zero byte inside a string. -/
def modifiedNul : List UInt8 := [0xC0, 0x80]

/-- The bytes that are escaped by a letter, with their letters, and the backslash itself. -/
def letterTable : List (UInt8 × UInt8) :=
  [(0x07, Ascii.byte 'a'), (0x08, Ascii.byte 'b'), (0x09, Ascii.byte 't'), (0x0A, Ascii.byte 'n'),
    (0x0B, Ascii.byte 'v'), (0x0C, Ascii.byte 'f'), (0x0D, Ascii.byte 'r'), (0x1B, Ascii.byte 'e'),
    (backslash, backslash)]

def letterOf? (c : UInt8) : Option UInt8 :=
  (letterTable.find? fun (byte, _) => byte == c).map Prod.snd

def byteOf? (letter : UInt8) : Option UInt8 :=
  (letterTable.find? fun (_, l) => l == letter).map Prod.fst

/-- The names of the control bytes. A name that begins with another name stands before it. -/
def names : List (List UInt8 × UInt8) :=
  [("NUL", 0x00), ("SOH", 0x01), ("STX", 0x02), ("ETX", 0x03), ("EOT", 0x04), ("ENQ", 0x05),
    ("ACK", 0x06), ("BEL", 0x07), ("DLE", 0x10), ("DC1", 0x11), ("DC2", 0x12), ("DC3", 0x13),
    ("DC4", 0x14), ("NAK", 0x15), ("SYN", 0x16), ("ETB", 0x17), ("CAN", 0x18), ("SUB", 0x1A),
    ("ESC", 0x1B), ("DEL", 0x7F), ("BS", 0x08), ("HT", 0x09), ("LF", 0x0A), ("VT", 0x0B),
    ("FF", 0x0C), ("CR", 0x0D), ("SO", 0x0E), ("SI", 0x0F), ("EM", 0x19), ("FS", 0x1C),
    ("GS", 0x1D), ("RS", 0x1E), ("US", 0x1F), ("SP", 0x20)].map
    fun (name, byte) => (Ascii.bytes name, byte)

/-- How escapes are read. -/
structure Flags where
  /-- Copy a sequence that is no escape as it stands. -/
  keepUnknown : Bool
  /-- Drop the backslash of a sequence that is no escape, unless it is to be kept. -/
  dropUnknown : Bool
  /-- Write every value as one byte, and a zero as zero, instead of writing characters in their
  bytes and a zero in its modified form. -/
  raw : Bool
  deriving DecidableEq

/-- Refuse unknown escapes and write characters. -/
def Flags.plain : Flags := ⟨false, false, false⟩

/-- The flags as bits: one, two and four. -/
def Flags.toBits (f : Flags) : Nat :=
  (if f.keepUnknown then 1 else 0) + (if f.dropUnknown then 2 else 0) + if f.raw then 4 else 0

/-- The flags that bits stand for; higher bits mean nothing. -/
def Flags.ofBits (n : Nat) : Flags := ⟨n.testBit 0, n.testBit 1, n.testBit 2⟩

end CText.Escape
