import CText.Ascii

/-!
# File modes

A mode is a 32-bit number. Its low twelve bits are permissions: read, write and execute for owner,
group and others, and one special bit that goes with each of these classes. The bits above tell
the type of the file and are never changed here. What a mode text means is an update: bits to set
and bits to clear first.
-/

namespace CText.Mode

def allPermissions : UInt32 := 0o7777

/-- One of owner, group and others. -/
inductive Who where
  | owner
  | group
  | other
  deriving DecidableEq

namespace Who

/-- The classes in the order in which they are written. -/
def all : List Who := [owner, group, other]

def letter : Who → UInt8
  | owner => 117
  | group => 103
  | other => 111

def read : Who → UInt32
  | owner => 0o400
  | group => 0o040
  | other => 0o004

def write : Who → UInt32
  | owner => 0o200
  | group => 0o020
  | other => 0o002

def exec : Who → UInt32
  | owner => 0o100
  | group => 0o010
  | other => 0o001

/-- The special bit: set-user-id, set-group-id, sticky. -/
def special : Who → UInt32
  | owner => 0o4000
  | group => 0o2000
  | other => 0o1000

/-- The letter for the special bit: `s`, and `t` for others. -/
def specialLetter : Who → UInt8
  | owner => 115
  | group => 115
  | other => 116

def scope (w : Who) : UInt32 := w.read ||| w.write ||| w.exec ||| w.special

end Who

/-- Bits to set, after the bits of the mask have been cleared. -/
structure Update where
  bits : UInt32
  mask : UInt32
  deriving DecidableEq

namespace Update

def none : Update := ⟨0, 0⟩

/-- Sets the permissions to those of `bits`. -/
def replace (bits : UInt32) : Update := ⟨bits &&& allPermissions, allPermissions⟩

def apply (u : Update) (base : UInt32) : UInt32 := (base &&& ~~~u.mask) ||| u.bits

end Update

/-- A number in octal, with zeros in front up to four digits. -/
def octalText (n : UInt32) : List UInt8 :=
  let digits := (Nat.toDigits 8 n.toNat).map Ascii.byte
  List.replicate (4 - digits.length) 48 ++ digits

def Update.text (u : Update) : List UInt8 := octalText u.bits ++ 47 :: octalText u.mask

end CText.Mode
