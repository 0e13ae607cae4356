import CText.Routine.Codecs
import CText.Routine.Memory
import CText.Routine.Paths
import CText.Routine.Strings
import CText.Routine.WideStrings

/-!
# Executing a case

A case names a routine and gives its inputs. The routines on strings and buffers are looked for
first. Every other name, whether or not it is one of a path or codec routine, has its reference
directory read before it is looked up.
-/

namespace CText.Conformance

open Routine

inductive CaseFault where
  | unknownFunction (function : String)
  | badInput (function field : String) (reason : Reason)
  | violation (v : Violation)
  deriving DecidableEq

def CaseFault.message : CaseFault → String
  | unknownFunction function => "unknown function `" ++ function ++ "`"
  | badInput function field reason =>
    function ++ ": bad input `" ++ field ++ "`: " ++ reason.message
  | violation v => v.message

/-- A trouble with the name of the routine that had it. -/
def CaseFault.of (function : String) : Trouble → CaseFault
  | .input field reason => badInput function field reason
  | .violation v => violation v

/-- The routines that are looked for first. -/
def plainRoutines : List Routine := strings ++ memory ++ wideStrings

/-- The routines that are looked for when the reference has been read. -/
def referringRoutines : List Routine := paths ++ codecs

def find? (routines : List Routine) (function : String) : Option Routine :=
  routines.find? fun r => r.name == function

def execute (function : String) (inputs : Json) : Except CaseFault Outcome :=
  match find? plainRoutines function with
  | some r => (r.run inputs).mapError (.of function)
  | none => do
    let _ ← (Inputs.text? inputs "reference").mapError (.of function)
    match find? referringRoutines function with
    | some r => (r.run inputs).mapError (.of function)
    | none => throw (.unknownFunction function)

end CText.Conformance
