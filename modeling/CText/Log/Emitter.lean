import CText.Log.Entry
import CText.Text.Basic

/-!
# Writing logs

An emitter numbers the entries of one run of a campaign. A number is drawn when an entry is begun
and is used up even if the entry is never written. The lines written are kept in order.
-/

namespace CText.Log

/-- The entries of one run. -/
structure Emitter where
  campaign : String
  runId : String
  /-- How many trace numbers are used up. -/
  drawn : Nat
  /-- The lines written. -/
  lines : Array String

namespace Emitter

def start (campaign runId : String) : Emitter := ⟨campaign, runId, 0, #[]⟩

/-- The trace id with a number: campaign, run and at least three digits. -/
def traceId (e : Emitter) (n : Nat) : String :=
  e.campaign ++ "::" ++ e.runId ++ "::" ++ String.ofList (Text.padded 3 n)

def draw (e : Emitter) : String × Emitter :=
  let n := e.drawn + 1
  (e.traceId n, { e with drawn := n })

def entry (e : Emitter) (timestamp : String) (level : Level) (event : String) :
    Entry × Emitter :=
  let (traceId, e) := e.draw
  ({ timestamp := timestamp, traceId := traceId, level := level, event := event,
     campaign := some e.campaign }, e)

def write (e : Emitter) (entry : Entry) : Emitter := { e with lines := e.lines.push entry.line }

/-- Begins an entry and writes it at once. -/
def emit (e : Emitter) (timestamp : String) (level : Level) (event : String) : Emitter :=
  let (entry, e) := e.entry timestamp level event
  e.write entry

/-- Writes an entry that may come from elsewhere: an empty trace id and a missing campaign are
filled in. -/
def emitEntry (e : Emitter) (entry : Entry) : Emitter :=
  let (traceId, e) := if entry.traceId = "" then e.draw else (entry.traceId, e)
  e.write { entry with
    traceId := traceId
    campaign := some (entry.campaign.getD e.campaign) }

def text (e : Emitter) : String := String.join (e.lines.toList.map (· ++ "\n"))

end Emitter

end CText.Log
