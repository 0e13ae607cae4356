import CText.Calendar
import CText.Conformance.Verdict
import CText.Files.Basic
import CText.Log.Emitter

/-!
# Runs that are logged

For each case of a set an entry is written, and one more for the whole set. A failure is an error,
and its entry shows what was expected. Times too long for 64 bits are told as the longest that fit.
A run that a broken promise ends leaves the entries written so far.
-/

namespace CText.Conformance

open Log

def failureDetails (v : Verdict) : Json :=
  .object [("actual", .text v.actual), ("case", .text v.caseName), ("expected", .text v.expected)]

def levelOf (v : Verdict) : Level := if v.passed then .info else .error

def logOutcome (v : Verdict) : Log.Outcome :=
  if v.passed then .pass else if v.unsupported then .error else .fail

def caseEntry (begun : Entry) (function : String) (v : Verdict) (latencyNs : Nat) : Entry :=
  { begun with
    stream := some .conformance
    family := some v.family
    symbol := some function
    outcome := some (logOutcome v)
    errno := some v.actualErrno
    latencyNs := some (min latencyNs countMax)
    details := if v.passed then none else some (failureDetails v) }

def logVerdict (log : Emitter) (timestamp : String) (function : String) (v : Verdict)
    (latencyNs : Nat) : Emitter :=
  let (begun, log) := log.entry timestamp (levelOf v) "case_result"
  log.emitEntry (caseEntry begun function v latencyNs)

def setDetails (campaign family : String) (verdicts : List Verdict) : Json :=
  .object [("campaign", .text campaign), ("family", .text family),
    ("passed", .ofNat (verdicts.countP (·.passed))), ("total", .ofNat verdicts.length)]

def setEntry (begun : Entry) (campaign family : String) (verdicts : List Verdict)
    (durationMs : Nat) : Entry :=
  { begun with
    stream := some .conformance
    durationMs := some (min durationMs countMax)
    details := some (setDetails campaign family verdicts) }

def logSet (log : Emitter) (timestamp : String) (campaign family : String)
    (verdicts : List Verdict) (durationMs : Nat) : Emitter :=
  let (begun, log) := log.entry timestamp .info "set_complete"
  log.emitEntry (setEntry begun campaign family verdicts durationMs)

section

variable {m : Type → Type} [Monad m] [Clock m]

/-- Executes and logs cases one after the other. -/
def runCasesLogged (family : String) (log : Emitter) :
    List FixtureCase → m (Emitter × Except Violation (List Verdict))
  | [] => return (log, .ok [])
  | c :: rest => do
    let started ← Clock.now
    match Verdict.ofCase family c with
    | .error v => return (log, .error v)
    | .ok verdict =>
      let ended ← Clock.now
      let log := logVerdict log (Calendar.utc ended) c.function verdict (ended - started)
      let (log, others) ← runCasesLogged family log rest
      return (log, others.map (verdict :: ·))

/-- Executes and logs the cases of a set. The campaign that the entry for the set tells is that of
the log, unless another is given. -/
def runLogged (s : FixtureSet) (log : Emitter) (campaign : String := log.campaign) :
    m (Emitter × Except Violation (List Verdict)) := do
  let started ← Clock.now
  match ← runCasesLogged s.family log s.cases with
  | (log, .error v) => return (log, .error v)
  | (log, .ok verdicts) =>
    let ended ← Clock.now
    let log :=
      logSet log (Calendar.utc ended) campaign s.family verdicts ((ended - started) / 1000000)
    return (log, .ok verdicts)

end

end CText.Conformance
