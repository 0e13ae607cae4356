import CText.Json.Printer

/-!
# Log entries

An entry of a log is a JSON object on a line of its own. Four fields are always there; the others
are left out if they say nothing. Levels, outcomes and streams are written by their names.
-/

namespace CText.Log

/-- A type whose members have names. -/
class Named (α : Type) where
  /-- The members in their order. -/
  all : List α
  name : α → String

def Named.names (α : Type) [Named α] : List String := (all : List α).map name

def Named.ofName? {α : Type} [Named α] (s : String) : Option α := all.find? fun a => name a == s

inductive Level where
  | trace
  | debug
  | info
  | warn
  | error
  | fatal
  deriving DecidableEq

instance : Named Level where
  all := [.trace, .debug, .info, .warn, .error, .fatal]
  name
    | .trace => "trace"
    | .debug => "debug"
    | .info => "info"
    | .warn => "warn"
    | .error => "error"
    | .fatal => "fatal"

inductive Outcome where
  | pass
  | fail
  | skip
  | error
  deriving DecidableEq

instance : Named Outcome where
  all := [.pass, .fail, .skip, .error]
  name
    | .pass => "pass"
    | .fail => "fail"
    | .skip => "skip"
    | .error => "error"

inductive Stream where
  | unit
  | conformance
  | cli
  | bench
  deriving DecidableEq

instance : Named Stream where
  all := [.unit, .conformance, .cli, .bench]
  name
    | .unit => "unit"
    | .conformance => "conformance"
    | .cli => "cli"
    | .bench => "bench"

/-- The greatest count of nanoseconds or milliseconds that an entry can tell. -/
def countMax : Nat := 18446744073709551615

structure Entry where
  timestamp : String
  traceId : String
  level : Level
  event : String
  campaign : Option String := none
  stream : Option Stream := none
  family : Option String := none
  symbol : Option String := none
  outcome : Option Outcome := none
  errno : Option Int := none
  latencyNs : Option Nat := none
  durationMs : Option Nat := none
  artifactRefs : Option (List String) := none
  details : Option Json := none

/-- A field, if it says something. -/
def optional {α : Type} (key : String) (encode : α → Json) : Option α → List (String × Json)
  | some a => [(key, encode a)]
  | none => []

def nameJson {α : Type} [Named α] (a : α) : Json := .text (Named.name a)

namespace Entry

def toJson (e : Entry) : Json :=
  .object ([("timestamp", .text e.timestamp), ("trace_id", .text e.traceId),
      ("level", nameJson e.level), ("event", .text e.event)] ++
    optional "campaign" .text e.campaign ++ optional "stream" nameJson e.stream ++
    optional "family" .text e.family ++ optional "symbol" .text e.symbol ++
    optional "outcome" nameJson e.outcome ++ optional "errno" .ofInt e.errno ++
    optional "latency_ns" .ofNat e.latencyNs ++ optional "duration_ms" .ofNat e.durationMs ++
    optional "artifact_refs" .ofTexts e.artifactRefs ++ optional "details" id e.details)

/-- An entry as a line, without the line feed. -/
def line (e : Entry) : String := e.toJson.compact

end Entry

/-! ## Reading entries -/

def readField {α : Type} (read : Json → Option α) (j : Json) (key : String) : Option α :=
  (j.get? key).bind read

def readOptional {α : Type} (read : Json → Option α) (j : Json) (key : String) :
    Option (Option α) :=
  match j.get? key with
  | none => some none
  | some .null => some none
  | some v => (read v).map some

/-- Reads a name, which may also be written as an object with that name and `null`. -/
def readName {α : Type} [Named α] : Json → Option α
  | .text s => Named.ofName? s
  | .object [(key, .null)] => Named.ofName? key
  | _ => none

def readWhole (low high : Int) : Json → Option Int
  | .number (.whole n) => if low ≤ n ∧ n ≤ high then some n else none
  | _ => none

def readErrno : Json → Option Int := readWhole (-2147483648) 2147483647

/-- Reads a number of 64 bits without a sign. -/
def readCount (j : Json) : Option Nat := (readWhole 0 countMax j).map Int.toNat

def readTexts : Json → Option (List String)
  | .list items => items.mapM Json.text?
  | _ => none

/-- The entry that a value stands for, if each of its fields has the right shape. Fields of other
names do not matter. -/
def Entry.ofJson? (j : Json) : Option Entry := do
  return {
    timestamp := ← readField Json.text? j "timestamp"
    traceId := ← readField Json.text? j "trace_id"
    level := ← readField readName j "level"
    event := ← readField Json.text? j "event"
    campaign := ← readOptional Json.text? j "campaign"
    stream := ← readOptional readName j "stream"
    family := ← readOptional Json.text? j "family"
    symbol := ← readOptional Json.text? j "symbol"
    outcome := ← readOptional readName j "outcome"
    errno := ← readOptional readErrno j "errno"
    latencyNs := ← readOptional readCount j "latency_ns"
    durationMs := ← readOptional readCount j "duration_ms"
    artifactRefs := ← readOptional readTexts j "artifact_refs"
    details := ← readOptional some j "details" }

end CText.Log
