import CText.CommandLine.Answer
import CText.CommandLine.Command
import CText.Escape.Encode
import CText.Mode.Parser
import CText.Path.Resolve
import CText.Settings
import CText.Size.Printer

/-!
# Commands for single values

These commands read one value from their arguments and write one line.
-/

namespace CText.CommandLine

/-- What a program finds about itself: the variables of its environment, the working directory, and
a name for the run. -/
structure Surroundings where
  environment : List (String × String)
  directory : Path.WorkingDirectory
  runId : String

/-- A text without the marks `0o` at its front, however many. -/
def dropOctalMarks : List UInt8 → List UInt8
  | 48 :: 111 :: rest => dropOctalMarks rest
  | s => s

def readOctal (s : String) : Except Failure UInt32 :=
  match Text.readUnsigned 8 4294967296 (dropOctalMarks (Utf8.bytes s)) with
  | .ok n => .ok n.toUInt32
  | .error fault => .error (.numeral fault)

def readCount (s : String) : Except Failure Nat :=
  (Text.readUnsigned 10 18446744073709551616 (Utf8.encode (Text.trim s.toList))).mapError .numeral

def ofLibrary {α : Type} (r : Except Error α) : Except Failure α := r.mapError .ofError

/-- Bytes as a text, with the replacement character for what is none. -/
def repaired (bytes : List UInt8) : List UInt8 := Utf8.bytes (Utf8.repair bytes)

/-- The flags for unknown escapes: those given, or else those of the environment. -/
def escapeFlags (s : Surroundings) (keep drop raw : Bool) : Escape.Flags :=
  let flags : Escape.Flags :=
    if keep || drop then { Escape.Flags.plain with keepUnknown := keep, dropUnknown := drop }
    else (Settings.unknownPolicy s.environment).flags
  { flags with raw := raw }

/-- The quote to escape as a byte, zero if there is none. -/
def quoteByte : Option Char → Except Failure UInt8
  | none => .ok 0
  | some c =>
    if c.toNat < 128 then .ok c.toNat.toUInt8
    else .error (.stated ("quote must be ASCII, got " ++ Text.charLiteral c))

/-- The line that a command writes, unless it needs files. -/
def line? (s : Surroundings) : Command → Option (Except Failure (List UInt8))
  | .mode input base => some do
    let update ← ofLibrary (Mode.parse (Utf8.bytes input))
    match base with
    | some base => return Mode.octalText (update.apply (← readOctal base))
    | none => return update.text
  | .renderMode bits style => some do return Mode.render (← readOctal bits) style
  | .size input base => some do
    let n ← ofLibrary (Size.parse (base.getD (Settings.sizeBase s.environment)) (Utf8.bytes input))
    return Utf8.bytes (toString n)
  | .renderSize count base => some do
    return Size.render (base.getD (Settings.sizeBase s.environment)) (← readCount count)
  | .clean path => some (.ok (Utf8.bytes (Path.cleanText path)))
  | .absolute file reference => some do
    return repaired (← ofLibrary
      (Path.absolute (Utf8.bytes file) (reference.map Utf8.bytes) s.directory))
  | .relative file reference => some do
    return repaired (← ofLibrary
      (Path.relative (Utf8.bytes file) (reference.map Utf8.bytes) s.directory))
  | .escape input quote => some do
    return repaired (← ofLibrary (Escape.escape (Utf8.bytes input) (← quoteByte quote)))
  | .unescape input keep drop raw => some
    (ofLibrary (Escape.unescape (Utf8.bytes input) (escapeFlags s keep drop raw)))
  | .verify _ => none
  | .validateLog _ => none

end CText.CommandLine
