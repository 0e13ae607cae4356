import CText.CommandLine.Codecs
import CText.Conformance.Load
import CText.Conformance.LoggedRun
import CText.Conformance.Report
import CText.Log.Artifact

/-!
# The command that verifies fixtures

All sets are loaded before the first case is executed. The log file is made empty at the start and
gets its lines at the end, also if the run breaks off. The reports come in the order of families
and case names, whatever the order of the run.
-/

namespace CText.CommandLine

open Conformance Log

/-- What has been written so far. -/
structure Written where
  output : List UInt8
  notes : List String

/-- A step of a command that may fail. What was written before a failure stays. -/
abbrev Job (m : Type → Type) := ExceptT Failure (StateT Written m)

namespace Job

variable {m : Type → Type} [Monad m]

def act {α : Type} (x : m α) : Job m α := ExceptT.lift (StateT.lift x)

def withFiles {α : Type} (x : m (Except FileFault α)) : Job m α := do
  match ← act x with
  | .ok a => return a
  | .error fault => throw (.file fault)

def note (line : String) : Job m Unit :=
  ExceptT.lift (modify fun w => { w with notes := w.notes ++ [line] })

def print (text : String) : Job m Unit :=
  ExceptT.lift (modify fun w => { w with output := w.output ++ Utf8.bytes text })

/-- Carries out a task to an answer. The exit status of a task that does not fail is its own. -/
def answer (task : Job m Nat) : m Answer := do
  match ← task.run.run ⟨[], []⟩ with
  | (.ok status, w) => return ⟨w.output, w.notes, status, none⟩
  | (.error failure, w) => return ⟨w.output, w.notes, failure.status, some failure⟩

end Job

open Job

def campaign : String := "fixture-verify"

def reportTitle : String := "ferrolibc conformance report"

section

variable {m : Type → Type} [Monad m] [Files m] [Clock m]

/-- Loads the sets to verify, of which there has to be one. -/
def loadSets (fixture : String) : Job m (List LoadedSet) := do
  match ← act (loadAll fixture) with
  | .error fault => throw (.ofLoad fault)
  | .ok [] => throw (.stated ("No fixture JSON files found in " ++ fixture))
  | .ok sets => return sets

/-- Makes the file of a log empty, if there is one. -/
def openLog (path : Option String) : Job m Unit := do
  match path with
  | some path => withFiles (Files.create path)
  | none => return ()

/-- Writes the lines of a log to its file, if there is one. -/
def flush (path : Option String) (log : Emitter) : Job m Unit := do
  match path with
  | some path => withFiles (Files.overwrite path (Utf8.bytes log.text))
  | none => return ()

/-- Writes what there is of a log, whatever comes of it, and fails. -/
def abandon {α : Type} (path : Option String) (log : Emitter) (failure : Failure) : Job m α := do
  match path with
  | some path =>
    let _ ← act (Files.overwrite path (Utf8.bytes log.text))
    throw failure
  | none => throw failure

def runSets (path : Option String) (log : Emitter) :
    List LoadedSet → Job m (Emitter × List Verdict)
  | [] => return (log, [])
  | loaded :: rest => do
    note s!"  {loaded.path} ({loaded.set.cases.length} cases)"
    match ← act (runLogged loaded.set log) with
    | (log, .error v) => abandon path log (.violation v)
    | (log, .ok verdicts) =>
      let (log, others) ← runSets path log rest
      return (log, verdicts ++ others)

/-- Writes a report to a file, if it is wanted; answers its path and kind. -/
def writeReport (path : Option String) (kind text : String) : Job m (List (String × String)) := do
  match path with
  | some path =>
    withFiles (Files.write path (Utf8.bytes text))
    return [(path, kind)]
  | none => return []

/-- Writes the reports that are wanted; answers their paths and kinds. Where none is wanted, the
page is printed. -/
def writeReports (v : Verification) (report : Report) : Job m (List (String × String)) := do
  let page ← writeReport v.report "report_markdown" report.markdown
  let value ← writeReport v.json "report_json" report.json
  if v.report.isNone && v.json.isNone then print report.markdown
  return page ++ value

/-- Writes the last entry of a log: whether all cases passed, and where the reports are. -/
def logReports (log : Emitter) (timestamp : String) (allPassed : Bool) (paths : List String)
    (durationMs : Nat) : Emitter :=
  let (entry, log) := log.entry timestamp (if allPassed then .info else .error) "verify_complete"
  log.emitEntry
    { entry with durationMs := some (min durationMs countMax), artifactRefs := some paths }

def nowUtc : Job m String := do return Calendar.utc (← act Clock.now)

/-- The time that a report tells: one that is given, or the present. -/
def reportTime (given : Option String) : Job m String := do
  match given with
  | some timestamp => return timestamp
  | none => nowUtc

def writeIndex (path : Option String) (runId : String) (listed : List (String × String)) :
    Job m Unit := do
  match path with
  | some path =>
    let index ← withFiles ((ArtifactIndex.start runId campaign (← nowUtc)).addFiles listed)
    withFiles (Files.write path (Utf8.bytes index.render))
  | none => return ()

/-- Writes about a run, which began at a time and has left a log: first the reports, then the rest of
the log, and in the end the index of both. -/
def conclude (s : Surroundings) (v : Verification) (started : Nat) (log : Emitter)
    (summary : Summary) : Job m Unit := do
  let timestamp ← reportTime v.timestamp
  let written ← tryCatch (writeReports v ⟨reportTitle, timestamp, summary⟩) (abandon v.log log)
  let ended ← act Clock.now
  flush v.log (logReports log (Calendar.utc ended) summary.allPassed (written.map (·.1))
    ((ended - started) / 1000000))
  writeIndex v.artifactIndex s.runId (written ++ (v.log.map (·, "log_jsonl")).toList)

/-- Verifies fixtures and writes about it; answers whether all cases passed. -/
def verify (s : Surroundings) (v : Verification) : Job m Bool := do
  note ("Verifying against fixtures in " ++ v.fixture)
  let sets ← loadSets v.fixture
  let started ← act Clock.now
  openLog v.log
  let (log, verdicts) ← runSets v.log (.start campaign s.runId) sets
  let summary : Summary := ⟨inOrder verdicts⟩
  conclude s v started log summary
  note s!"{summary.passed} passed, {summary.failed} failed"
  return summary.allPassed

end

end CText.CommandLine
