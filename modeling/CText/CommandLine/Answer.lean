import CText.Conformance.Load
import CText.Error
import CText.Text.Basic

/-!
# Answers of the command line

A command writes bytes to the output and lines to the side, and ends with a failure or not.
-/

namespace CText.CommandLine

inductive Failure where
  /-- A failure that is put into words here. -/
  | stated (text : String)
  | numeral (fault : Text.NumeralFault)
  | file (fault : FileFault)
  | json (fault : Json.Fault)
  /-- A promise broken by a case, which ends the program at once. -/
  | violation (v : Violation)
  deriving DecidableEq

namespace Failure

def ofError (e : Error) : Failure :=
  stated ((errnoName e.errno).getD "EUNKNOWN" ++ ": " ++ e.message)

def ofLoad : Conformance.LoadFault → Failure
  | .file fault => file fault
  | .json fault => json fault

def message : Failure → String
  | stated text => "Error: " ++ Text.literal text
  | numeral fault => "Error: " ++ fault.message
  | file fault => "Error: " ++ fault.message
  | json .ended => "Error: the JSON text ends too early"
  | json .malformed => "Error: the text is no JSON"
  | json .mistyped => "Error: the JSON text has the wrong shape"
  | violation v => "Violation: " ++ v.message

def status : Failure → Nat
  | violation _ => 101
  | _ => 1

end Failure

/-- What a command does. -/
structure Answer where
  output : List UInt8
  notes : List String
  status : Nat
  failure : Option Failure

namespace Answer

def ofLine : Except Failure (List UInt8) → Answer
  | .ok line => ⟨line ++ [10], [], 0, none⟩
  | .error failure => ⟨[], [], failure.status, some failure⟩

def misuse : Answer := ⟨[], [], 2, none⟩

/-- All that is written to the side, each line with a line feed. -/
def sideText (a : Answer) : String :=
  String.join ((a.notes ++ (a.failure.map Failure.message).toList).map (· ++ "\n"))

end Answer

end CText.CommandLine
