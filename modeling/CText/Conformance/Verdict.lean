import CText.Conformance.Diff
import CText.Conformance.Execute
import CText.Conformance.Fixture

/-!
# Verdicts

A case passes if both its output and its error number are the expected ones. What cannot be
executed has an output that says so, and no error number. A verdict that a case failed shows the
difference of the outputs, or that of the error numbers if the outputs agree.
-/

namespace CText.Conformance

structure Verdict where
  family : String
  caseName : String
  reference : String
  passed : Bool
  expected : String
  actual : String
  expectedErrno : Int
  actualErrno : Int
  /-- The difference, for a case that failed. -/
  diff : Option String
  deriving DecidableEq

/-- The start of the output of a case that could not be executed. -/
def unsupportedMark : String := "unsupported:"

/-- What a case comes to. A broken promise is not an outcome and ends the run. -/
def outcomeOf (c : FixtureCase) : Except Violation Routine.Outcome :=
  match execute c.function c.inputs with
  | .ok outcome => .ok outcome
  | .error (.violation v) => .error v
  | .error fault => .ok (.ok (unsupportedMark ++ fault.message))

def errnoNote (expected actual : Int) : String := s!"errno: expected {expected}, got {actual}"

def differenceOf (c : FixtureCase) (outcome : Routine.Outcome) : Option String :=
  if outcome.output ≠ c.expectedOutput then some (diff c.expectedOutput outcome.output)
  else if outcome.errno ≠ c.expectedErrno then some (errnoNote c.expectedErrno outcome.errno)
  else none

namespace Verdict

def ofOutcome (family : String) (c : FixtureCase) (outcome : Routine.Outcome) : Verdict where
  family := family
  caseName := c.name
  reference := c.reference
  passed := outcome.output = c.expectedOutput ∧ outcome.errno = c.expectedErrno
  expected := c.expectedOutput
  actual := outcome.output
  expectedErrno := c.expectedErrno
  actualErrno := outcome.errno
  diff := differenceOf c outcome

def ofCase (family : String) (c : FixtureCase) : Except Violation Verdict :=
  (outcomeOf c).map (ofOutcome family c)

/-- Whether the case could not be executed, or has an output that reads so. -/
def unsupported (v : Verdict) : Bool := unsupportedMark.toList.isPrefixOf v.actual.toList

def toJson (v : Verdict) : Json :=
  .object [("family", .text v.family), ("case_name", .text v.caseName),
    ("reference", .text v.reference), ("passed", .bool v.passed), ("expected", .text v.expected),
    ("actual", .text v.actual), ("expected_errno", .ofInt v.expectedErrno),
    ("actual_errno", .ofInt v.actualErrno),
    ("diff", match v.diff with
      | some s => .text s
      | none => .null)]

end Verdict

def run (s : FixtureSet) : Except Violation (List Verdict) :=
  s.cases.mapM (Verdict.ofCase s.family)

end CText.Conformance
