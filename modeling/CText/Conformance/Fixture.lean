import CText.Json.Printer
import CText.Json.Reader

/-!
# Fixtures

A fixture set is a list of cases for one family of routines, written as a JSON text. A case names a
routine, gives its inputs, and says which output and error number are expected. The reference to
a standard and the error number may be left out.
-/

namespace CText.Conformance

open Json Json.Document

/-- A case: a routine, its inputs, and what is expected of it. -/
structure FixtureCase where
  name : String
  function : String
  reference : String
  inputs : Json
  expectedOutput : String
  expectedErrno : Int

structure FixtureSet where
  version : String
  family : String
  capturedAt : String
  cases : List FixtureCase

def readErrno (d : Document) : Except Fault Int := readInt (-2147483648) 2147483647 d

namespace FixtureCase

structure Draft where
  name : Option String := none
  function : Option String := none
  reference : Option String := none
  inputs : Option Json := none
  expectedOutput : Option String := none
  expectedErrno : Option Int := none

def fieldNames : List String :=
  ["name", "function", "reference", "inputs", "expected_output", "expected_errno"]

/-- How deep inputs may go: they lie in a case, in a list, in a set. -/
def inputsDepth : Nat := depthLimit - 3

/-- Reads a field. Fields of other names are passed over. -/
def Draft.step (c : Draft) (field : String) (d : Document) : Except Fault Draft :=
  match field with
  | "name" => (setOnce c.name (readText d)).map fun v => { c with name := v }
  | "function" => (setOnce c.function (readText d)).map fun v => { c with function := v }
  | "reference" => (setOnce c.reference (readText d)).map fun v => { c with reference := v }
  | "inputs" => (setOnce c.inputs (readValue inputsDepth d)).map fun v => { c with inputs := v }
  | "expected_output" =>
    (setOnce c.expectedOutput (readText d)).map fun v => { c with expectedOutput := v }
  | "expected_errno" =>
    (setOnce c.expectedErrno (readErrno d)).map fun v => { c with expectedErrno := v }
  | _ => (pass d).map fun _ => c

def Draft.finish (c : Draft) : Except Fault FixtureCase := do
  return {
    name := ← require c.name
    function := ← require c.function
    reference := c.reference.getD ""
    inputs := ← require c.inputs
    expectedOutput := ← require c.expectedOutput
    expectedErrno := c.expectedErrno.getD 0 }

def ofDocument (d : Document) : Except Fault FixtureCase := do
  (← readRecord fieldNames Draft.step {} d).finish

def toJson (c : FixtureCase) : Json :=
  .object [("name", .text c.name), ("function", .text c.function), ("reference", .text c.reference),
    ("inputs", c.inputs), ("expected_output", .text c.expectedOutput),
    ("expected_errno", .ofInt c.expectedErrno)]

end FixtureCase

namespace FixtureSet

structure Draft where
  version : Option String := none
  family : Option String := none
  capturedAt : Option String := none
  cases : Option (List FixtureCase) := none

def fieldNames : List String := ["version", "family", "captured_at", "cases"]

def Draft.step (s : Draft) (field : String) (d : Document) : Except Fault Draft :=
  match field with
  | "version" => (setOnce s.version (readText d)).map fun v => { s with version := v }
  | "family" => (setOnce s.family (readText d)).map fun v => { s with family := v }
  | "captured_at" => (setOnce s.capturedAt (readText d)).map fun v => { s with capturedAt := v }
  | "cases" =>
    (setOnce s.cases (readList FixtureCase.ofDocument d)).map fun v => { s with cases := v }
  | _ => (pass d).map fun _ => s

def Draft.finish (s : Draft) : Except Fault FixtureSet := do
  return {
    version := ← require s.version
    family := ← require s.family
    capturedAt := ← require s.capturedAt
    cases := ← require s.cases }

def ofDocument (d : Document) : Except Fault FixtureSet := do
  (← readRecord fieldNames Draft.step {} d).finish

def read (s : String) : Except Fault FixtureSet := readWith ofDocument s

def toJson (s : FixtureSet) : Json :=
  .object [("version", .text s.version), ("family", .text s.family),
    ("captured_at", .text s.capturedAt), ("cases", .list (s.cases.map FixtureCase.toJson))]

def render (s : FixtureSet) : String := s.toJson.pretty

end FixtureSet

end CText.Conformance
