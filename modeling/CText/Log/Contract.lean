import CText.Files.Basic
import CText.Json.Reader
import CText.Log.Entry
import CText.Text.Basic

/-!
# The contract of a log

A line keeps the contract if it is a JSON object in which four fields are present, the names of
levels, outcomes and streams are known, an entry on a failure names a symbol, and a trace id has
three parts. All breaches on a line are told, those of the shape of the fields only if there are no
others. Blank lines of a file do not count.
-/

namespace CText.Log

/-- A way in which a line breaks the contract. -/
inductive Breach where
  | notJson (fault : Json.Fault)
  | notAnObject
  | missing (field : String)
  | unknownName (field value : String) (allowed : List String)
  | unnamedFailure
  | oddTraceId (traceId : String)
  | misshapen
  deriving DecidableEq

namespace Breach

def field : Breach → String
  | notJson _ => "<json>"
  | notAnObject => "<root>"
  | missing field => field
  | unknownName field _ _ => field
  | unnamedFailure => "symbol"
  | oddTraceId _ => "trace_id"
  | misshapen => "<deserialization>"

/-- Names as a list in which each stands between quotes. -/
def nameList (names : List String) : String :=
  "[" ++ String.intercalate ", " (names.map fun name => "\"" ++ name ++ "\"") ++ "]"

def message : Breach → String
  | notJson .ended => "not JSON: the text ends too early"
  | notJson _ => "not JSON: the text cannot be read"
  | notAnObject => "line is not a JSON object"
  | missing _ => "missing"
  | unknownName _ value allowed => "'" ++ value ++ "' is not one of " ++ nameList allowed
  | unnamedFailure => "fail outcomes must name the symbol"
  | oddTraceId traceId => "expected <campaign>::<run_id>::<seq>, got '" ++ traceId ++ "'"
  | misshapen => "a field has the wrong shape"

end Breach

def requiredFields : List String := ["timestamp", "trace_id", "level", "event"]

/-- The number of parts of a text between double colons. -/
def partCount : List Char → Nat
  | ':' :: ':' :: rest => partCount rest + 1
  | _ :: rest => partCount rest
  | [] => 1

/-- A field of a line, if it is a text. -/
def textField (j : Json) (field : String) : Option String := (j.get? field).bind Json.text?

/-- The breaches by a field that holds a name. -/
def nameBreaches (j : Json) (field : String) (allowed : List String) : List Breach :=
  match textField j field with
  | some value => if allowed.contains value then [] else [.unknownName field value allowed]
  | none => []

def failureBreaches (j : Json) : List Breach :=
  if textField j "outcome" = some (Named.name Outcome.fail) ∧ textField j "symbol" = none then
    [.unnamedFailure]
  else []

def traceIdBreaches (j : Json) : List Breach :=
  match textField j "trace_id" with
  | some traceId => if partCount traceId.toList = 3 then [] else [.oddTraceId traceId]
  | none => []

/-- The breaches by an object, its field shapes apart. -/
def breaches (j : Json) : List Breach :=
  (requiredFields.filter fun field => (j.get? field).isNone).map .missing ++
    nameBreaches j "level" (Named.names Level) ++ nameBreaches j "outcome" (Named.names Outcome) ++
    nameBreaches j "stream" (Named.names Stream) ++ failureBreaches j ++ traceIdBreaches j

/-- The entry on a line, or what is wrong with the line. -/
def readLine (line : String) : Except (List Breach) Entry :=
  match Json.read line with
  | .error fault => .error [.notJson fault]
  | .ok (.object members) => match breaches (.object members) with
    | [] => match Entry.ofJson? (.object members) with
      | some entry => .ok entry
      | none => .error [.misshapen]
    | found => .error found
  | .ok _ => .error [.notAnObject]

/-- A breach on a line of a file, the lines being counted from one. -/
structure Finding where
  line : Nat
  breach : Breach
  deriving DecidableEq

def Finding.message (f : Finding) : String :=
  s!"line {f.line} [{f.breach.field}]: {f.breach.message}"

def findings (line : Nat) (text : String) : List Finding :=
  match readLine text with
  | .ok _ => []
  | .error found => found.map (⟨line, ·⟩)

/-- The lines of a file that are not blank, with their numbers and without the blanks at their
ends. -/
def entryLines (content : String) : List (Nat × String) :=
  (((Text.lines content.toList).zipIdx 1).map fun (line, n) =>
    (n, String.ofList (Text.trim line))).filter fun (_, text) => text ≠ ""

structure Examination where
  lines : Nat
  findings : List Finding

def examine (content : String) : Examination :=
  let lines := entryLines content
  ⟨lines.length, lines.flatMap fun (n, text) => findings n text⟩

def examineFile {m : Type → Type} [Monad m] [Files m] (path : String) :
    m (Except FileFault Examination) := do
  return (← Files.readText path).map examine

end CText.Log
