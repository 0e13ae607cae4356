import CText.Checked.CString
import CText.Digest
import CText.Error
import CText.Json.Printer
import CText.Text.Utf8

/-!
# Outcomes of a routine

An outcome is a text and an error number, so that it can be compared with what a test case expects.
Bytes that are a text are shown as that text and others in hexadecimal digits. A failure of the
library is an outcome too and is shown by the name of its error number.
-/

namespace CText.Routine

structure Outcome where
  output : String
  errno : Int
  deriving DecidableEq

namespace Outcome

def ok (output : String) : Outcome := ⟨output, 0⟩

def failed (e : Error) : Outcome := ⟨(errnoName e.errno).getD s!"errno {e.errno}", e.errno⟩

end Outcome

def showBytes (bytes : List UInt8) : String :=
  match Utf8.text? bytes with
  | some s => s
  | none => "hex:" ++ String.ofList (Digest.hex bytes)

def showString (s : List UInt8) : Except Violation String := do
  return showBytes (← Checked.content s)

/-- A wide string as it is shown, with the replacement character in the place of units that are no
characters. -/
def showWide (s : List UInt32) : Except Violation String := do
  return String.ofList ((← Checked.content s).map fun u => (Utf8.scalar? u.toNat).getD '\uFFFD')

def showIndex : Option Nat → String
  | some n => toString n
  | none => "null"

def showSign (n : Int) : String := toString n.sign

def showOrder : Ordering → String
  | .lt => "-1"
  | .eq => "0"
  | .gt => "1"

def showBuffer (buf : List UInt8) : String :=
  "[" ++ String.intercalate ", " (buf.map fun b => toString b.toNat) ++ "]"

def showTokens (tokens : List String) : String := (Json.ofTexts tokens).compact

end CText.Routine
