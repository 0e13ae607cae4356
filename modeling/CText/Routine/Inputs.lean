import CText.Json.Printer
import CText.Settings
import CText.Text.Basic

/-!
# Inputs of a routine

A test case gives its inputs as the members of a JSON object. A string may be a JSON text, which is
then ended by a terminator, or a list of bytes or units, which is taken as it is. A single byte or
unit may be a number or a text of one. What is read and is not there, or has another shape, is
reported with the name of the member.
-/

namespace CText.Routine

inductive Reason where
  | missing
  | byteItems
  | stringOrBytes
  | unitItems
  | stringOrUnits
  | string
  | unsigned
  | byteValue
  | byteOrString
  | oneCharacter
  | unitValue
  | unitOrString
  | numeral (fault : Text.NumeralFault)
  | modeValue
  | octalOrNumber
  | flagList
  | unknownFlag (flag : String)
  | unknownStyle (style : String)
  | shortDestination
  | noRoom (needed capacity : Nat)
  deriving DecidableEq

def Reason.message : Reason → String
  | missing => "missing"
  | byteItems => "array items must be bytes"
  | stringOrBytes => "expected string or byte array"
  | unitItems => "array items must be u32"
  | stringOrUnits => "expected string or u32 array"
  | string => "expected string"
  | unsigned => "expected unsigned integer"
  | byteValue => "expected a byte value"
  | byteOrString => "expected a byte or one-byte string"
  | oneCharacter => "expected one character"
  | unitValue => "expected a u32 value"
  | unitOrString => "expected a unit or one-character string"
  | numeral fault => fault.message
  | modeValue => "expected a mode value"
  | octalOrNumber => "expected octal string or number"
  | flagList => "expected array of flag names"
  | unknownFlag flag => s!"unknown flag {flag}"
  | unknownStyle style => s!"unknown style {style}"
  | shortDestination => "smaller than the initial destination string"
  | noRoom needed capacity => s!"needs {needed} bytes, has {capacity}"

/-- Why a routine gives no outcome: an input it cannot use, or a promise broken on the way. -/
inductive Trouble where
  | input (field : String) (reason : Reason)
  | violation (v : Violation)
  deriving DecidableEq

namespace Inputs

def get (inputs : Json) (field : String) : Except Trouble Json :=
  match inputs.get? field with
  | some j => .ok j
  | none => .error (.input field .missing)

/-- An input, if it is there and is not `null`. -/
def present? (inputs : Json) (field : String) : Option Json :=
  match inputs.get? field with
  | some .null => none
  | other => other

def below? (limit : Nat) (j : Json) : Option Nat := j.nat?.bind fun n => if n < limit then some n else none

def units {α : Type} (field : String) (reason : Reason) (limit : Nat) (unit : Nat → α)
    (items : List Json) : Except Trouble (List α) :=
  items.mapM fun item => match below? limit item with
    | some n => .ok (unit n)
    | none => .error (.input field reason)

/-- Bytes without a terminator. -/
def bytes (inputs : Json) (field : String) : Except Trouble (List UInt8) := do
  match ← get inputs field with
  | .text s => return Utf8.bytes s
  | .list items => units field .byteItems 256 Nat.toUInt8 items
  | _ => throw (.input field .stringOrBytes)

def cstring (inputs : Json) (field : String) : Except Trouble (List UInt8) := do
  match ← get inputs field with
  | .text s => return Utf8.bytes s ++ [0]
  | .list items => units field .byteItems 256 Nat.toUInt8 items
  | _ => throw (.input field .stringOrBytes)

def cstring? (inputs : Json) (field : String) : Except Trouble (Option (List UInt8)) :=
  match present? inputs field with
  | some _ => (cstring inputs field).map some
  | none => .ok none

def wide (inputs : Json) (field : String) : Except Trouble (List UInt32) := do
  match ← get inputs field with
  | .text s => return s.toList.map (fun c => c.toNat.toUInt32) ++ [0]
  | .list items => units field .unitItems 4294967296 Nat.toUInt32 items
  | _ => throw (.input field .stringOrUnits)

def text (inputs : Json) (field : String) : Except Trouble String := do
  match ← get inputs field with
  | .text s => return s
  | _ => throw (.input field .string)

def text? (inputs : Json) (field : String) : Except Trouble (Option String) :=
  match present? inputs field with
  | some _ => (text inputs field).map some
  | none => .ok none

def count (inputs : Json) (field : String) : Except Trouble Nat := do
  match (← get inputs field).nat? with
  | some n => return n
  | none => throw (.input field .unsigned)

/-- A number, if there is one. -/
def countOr (inputs : Json) (field : String) (default : Nat) : Except Trouble Nat :=
  match present? inputs field with
  | some _ => count inputs field
  | none => .ok default

def byte (inputs : Json) (field : String) : Except Trouble UInt8 := do
  match ← get inputs field with
  | .text s => match Utf8.bytes s with
    | [b] => return b
    | _ => throw (.input field .byteOrString)
  | .number n => match below? 256 (.number n) with
    | some n => return n.toUInt8
    | none => throw (.input field .byteValue)
  | _ => throw (.input field .byteOrString)

def unit (inputs : Json) (field : String) : Except Trouble UInt32 := do
  match ← get inputs field with
  | .text s => match s.toList with
    | [c] => return c.toNat.toUInt32
    | _ => throw (.input field .oneCharacter)
  | .number n => match below? 4294967296 (.number n) with
    | some n => return n.toUInt32
    | none => throw (.input field .unitValue)
  | _ => throw (.input field .unitOrString)

/-- A text without one `0o` at its front. -/
def dropOctalMark (s : List UInt8) : List UInt8 :=
  match s with
  | 48 :: 111 :: rest => rest
  | s => s

/-- A mode as a number or as octal digits. -/
def octal (inputs : Json) (field : String) : Except Trouble UInt32 := do
  match ← get inputs field with
  | .text s => match Text.readUnsigned 8 4294967296 (dropOctalMark (Utf8.bytes s)) with
    | .ok n => return n.toUInt32
    | .error fault => throw (.input field (.numeral fault))
  | .number n => match below? 4294967296 (.number n) with
    | some n => return n.toUInt32
    | none => throw (.input field .modeValue)
  | _ => throw (.input field .octalOrNumber)

def sizeBase (inputs : Json) : Except Trouble Size.Base := do
  match ← text? inputs "units" with
  | some s => return Settings.baseOfText s
  | none => return .decimal

def addFlag (flags : Escape.Flags) (j : Json) : Except Trouble Escape.Flags :=
  match j.text? with
  | some "keep" => .ok { flags with keepUnknown := true }
  | some "drop" => .ok { flags with dropUnknown := true }
  | some "raw" => .ok { flags with raw := true }
  | _ => .error (.input "flags" (.unknownFlag j.compact))

/-- The flags for reading escapes, none if they are not given. -/
def escapeFlags (inputs : Json) : Except Trouble Escape.Flags :=
  match present? inputs "flags" with
  | none => .ok .plain
  | some (.list items) => items.foldlM addFlag .plain
  | some _ => .error (.input "flags" .flagList)

end Inputs

end CText.Routine
