import CText.Checked.Basic
import CText.Log.Emitter
import Mathlib.Tactic.Common

/-!
# Calls of an emitter

The owner of an emitter begins entries, writes them later or never, and writes entries that come
from elsewhere, in any order. A call draws one id or none, and a run of calls draws the ids that
follow on those used up. With a counter of 64 bits the run comes to the same, unless it is to draw
more ids than there are numbers.
-/

namespace CText

namespace Log.Emitter

/-! ## Calls -/

inductive Call where
  /-- An entry is begun and written at once. -/
  | emit (timestamp : String) (level : Level) (event : String)
  /-- An entry is begun. -/
  | entry (timestamp : String) (level : Level) (event : String)
  /-- An entry is written: one that was begun and may have been filled in since, or one from
  elsewhere. -/
  | emitEntry (entry : Entry)

def Call.draws : Call → Bool
  | .emit .. => true
  | .entry .. => true
  | .emitEntry e => e.traceId = ""

section

variable (log : Emitter)

/-- An entry as it is written: with an id and a campaign where it had none. -/
def completed (e : Entry) : Entry :=
  { e with
    traceId := if e.traceId = "" then log.draw.1 else e.traceId
    campaign := some (e.campaign.getD log.campaign) }

def call : Call → Emitter
  | .emit timestamp level event => log.emit timestamp level event
  | .entry timestamp level event => (log.entry timestamp level event).2
  | .emitEntry e => log.emitEntry e

/-- The entry that a call writes, if it writes one. -/
def writtenBy : Call → Option Entry
  | .emit timestamp level event => some (log.entry timestamp level event).1
  | .entry .. => none
  | .emitEntry e => some (log.completed e)

/-- The id that a call draws, if it draws one. It is that of the entry begun or written. -/
def drawnBy : Call → Option String
  | .emit timestamp level event => some (log.entry timestamp level event).1.traceId
  | .entry timestamp level event => some (log.entry timestamp level event).1.traceId
  | .emitEntry e => if e.traceId = "" then some (log.completed e).traceId else none

/-- A call that draws an id draws the next. -/
theorem drawnBy_eq (c : Call) :
    log.drawnBy c = if c.draws then some (log.traceId (log.drawn + 1)) else none := by
  cases c with
  | emit timestamp level event => rfl
  | entry timestamp level event => rfl
  | emitEntry e =>
    by_cases h : e.traceId = ""
    · simp [drawnBy, Call.draws, completed, draw, h]
    · simp [drawnBy, Call.draws, h]

/-- A call uses up a number if it draws an id, and adds the line of the entry that it writes. -/
theorem call_eq (c : Call) :
    log.call c =
      { log with
        drawn := log.drawn + c.draws.toNat
        lines := log.lines ++ ((log.writtenBy c).toList.map Entry.line).toArray } := by
  cases c with
  | emit timestamp level event => simp [call, emit, entry, draw, write, writtenBy, Call.draws]
  | entry timestamp level event => simp [call, entry, draw, writtenBy, Call.draws]
  | emitEntry e =>
    by_cases h : e.traceId = ""
    · simp [call, emitEntry, draw, write, writtenBy, Call.draws, completed, h]
    · simp [call, emitEntry, write, writtenBy, Call.draws, completed, h]

theorem traceId_call (c : Call) : (log.call c).traceId = log.traceId := by
  rw [call_eq]
  rfl

theorem drawn_call (c : Call) : (log.call c).drawn = log.drawn + c.draws.toNat := by
  rw [call_eq]

end

/-! ## Runs -/

def calls (log : Emitter) : List Call → Emitter
  | [] => log
  | c :: rest => (log.call c).calls rest

def idsDrawn (log : Emitter) : List Call → List String
  | [] => []
  | c :: rest => (log.drawnBy c).toList ++ (log.call c).idsDrawn rest

def entriesWritten (log : Emitter) : List Call → List Entry
  | [] => []
  | c :: rest => (log.writtenBy c).toList ++ (log.call c).entriesWritten rest

/-- The ids drawn have the numbers that follow on those used up. -/
theorem idsDrawn_eq (log : Emitter) (cs : List Call) :
    log.idsDrawn cs = (List.range' (log.drawn + 1) (cs.countP (·.draws))).map log.traceId := by
  induction cs generalizing log with
  | nil => rfl
  | cons c cs ih =>
    rw [idsDrawn, ih, traceId_call, drawnBy_eq, drawn_call]
    by_cases h : c.draws = true
    · rw [List.countP_cons_of_pos h, List.range'_succ, if_pos h, h]
      rfl
    · rw [List.countP_cons_of_neg h, if_neg h, eq_false_of_ne_true h]
      rfl

theorem lines_calls (log : Emitter) (cs : List Call) :
    (log.calls cs).lines.toList =
      log.lines.toList ++ (log.entriesWritten cs).map Entry.line := by
  induction cs generalizing log with
  | nil => simp [calls, entriesWritten]
  | cons c cs ih =>
    rw [calls, ih, entriesWritten, call_eq]
    simp

end Log.Emitter

/-! ## The counter

An emitter that has used up all numbers breaks its promise when it is to draw another; it never
starts again from the first. -/

namespace Checked

open Log Emitter

/-- Draws a trace id, of which the number has 64 bits. -/
def drawId (log : Emitter) : Except Violation (String × Emitter) := do
  let n ← add log.drawn 1
  return (log.traceId n, { log with drawn := n })

def beginEntry (log : Emitter) (timestamp : String) (level : Level) (event : String) :
    Except Violation (Entry × Emitter) := do
  let (traceId, log) ← drawId log
  return ({ timestamp := timestamp, traceId := traceId, level := level, event := event,
            campaign := some log.campaign }, log)

def emit (log : Emitter) (timestamp : String) (level : Level) (event : String) :
    Except Violation Emitter := do
  let (entry, log) ← beginEntry log timestamp level event
  return log.write entry

/-- Only an entry without a trace id takes up a number. -/
def emitEntry (log : Emitter) (entry : Entry) : Except Violation Emitter := do
  let (traceId, log) ← if entry.traceId = "" then drawId log else pure (entry.traceId, log)
  return log.write { entry with
    traceId := traceId
    campaign := some (entry.campaign.getD log.campaign) }

variable {log : Emitter}

theorem drawId_eq (h : log.drawn + 1 < countLimit) : drawId log = .ok log.draw := by
  rw [drawId, add_eq h]
  rfl

/-- After the last number there is none to draw. -/
theorem drawId_last (h : countLimit ≤ log.drawn + 1) :
    drawId log = .error (.overflow .addition) := by
  rw [drawId, add, addBelow, if_neg (Nat.not_lt.2 h)]
  rfl

def call (log : Emitter) : Call → Except Violation Emitter
  | .emit timestamp level event => emit log timestamp level event
  | .entry timestamp level event => (beginEntry log timestamp level event).map (·.2)
  | .emitEntry e => emitEntry log e

def calls (log : Emitter) : List Call → Except Violation Emitter
  | [] => .ok log
  | c :: rest => do calls (← call log c) rest

/-- The id that a call draws, if it draws one. -/
def drawnBy (log : Emitter) : Call → Except Violation (Option String)
  | .emit timestamp level event =>
    (beginEntry log timestamp level event).map (some ·.1.traceId)
  | .entry timestamp level event =>
    (beginEntry log timestamp level event).map (some ·.1.traceId)
  | .emitEntry e => if e.traceId = "" then (drawId log).map (some ·.1) else .ok none

def idsDrawn (log : Emitter) : List Call → Except Violation (List String)
  | [] => .ok []
  | c :: rest => do
    let id ← drawnBy log c
    let log ← call log c
    return id.toList ++ (← idsDrawn log rest)

theorem call_eq {c : Call} (h : c.draws = true → log.drawn + 1 < countLimit) :
    call log c = .ok (log.call c) := by
  cases c with
  | emit timestamp level event =>
    rw [call, emit, beginEntry, drawId_eq (h rfl)]
    rfl
  | entry timestamp level event =>
    rw [call, beginEntry, drawId_eq (h rfl)]
    rfl
  | emitEntry e =>
    rw [call, emitEntry]
    by_cases hid : e.traceId = ""
    · rw [if_pos hid, drawId_eq (h (decide_eq_true hid)), Emitter.call, Emitter.emitEntry, if_pos hid]
      rfl
    · rw [if_neg hid, Emitter.call, Emitter.emitEntry, if_neg hid]
      rfl

theorem drawnBy_eq {c : Call} (h : c.draws = true → log.drawn + 1 < countLimit) :
    drawnBy log c = .ok (log.drawnBy c) := by
  cases c with
  | emit timestamp level event =>
    rw [drawnBy, beginEntry, drawId_eq (h rfl)]
    rfl
  | entry timestamp level event =>
    rw [drawnBy, beginEntry, drawId_eq (h rfl)]
    rfl
  | emitEntry e =>
    rw [drawnBy]
    by_cases hid : e.traceId = ""
    · rw [if_pos hid, drawId_eq (h (decide_eq_true hid)), Emitter.drawnBy, if_pos hid, completed,
        if_pos hid]
      rfl
    · rw [if_neg hid, Emitter.drawnBy, if_neg hid]

theorem call_last {c : Call} (hdraws : c.draws = true) (h : countLimit ≤ log.drawn + 1) :
    call log c = .error (.overflow .addition) := by
  cases c with
  | emit timestamp level event =>
    rw [call, emit, beginEntry, drawId_last h]
    rfl
  | entry timestamp level event =>
    rw [call, beginEntry, drawId_last h]
    rfl
  | emitEntry e =>
    rw [call, emitEntry, if_pos (of_decide_eq_true hdraws), drawId_last h]
    rfl

theorem countP_draws_cons (c : Call) (cs : List Call) :
    (c :: cs).countP (·.draws) = c.draws.toNat + cs.countP (·.draws) := by
  cases h : c.draws with
  | true => rw [List.countP_cons_of_pos h, Bool.toNat_true, Nat.add_comm]
  | false => rw [List.countP_cons_of_neg (ne_true_of_eq_false h), Bool.toNat_false, Nat.zero_add]

/-- If there are numbers for a run, there is one for its first call and there are some for the
rest. -/
theorem numbers_cons {c : Call} {cs : List Call}
    (h : log.drawn + (c :: cs).countP (·.draws) < countLimit) :
    (c.draws = true → log.drawn + 1 < countLimit) ∧
      (log.call c).drawn + cs.countP (·.draws) < countLimit := by
  rw [countP_draws_cons, ← Nat.add_assoc, ← drawn_call] at h
  refine ⟨fun hdraws => ?_, h⟩
  rw [drawn_call, hdraws, Bool.toNat_true] at h
  omega

/-- As long as there are numbers, a run of calls comes to what it does without a limit. -/
theorem calls_eq {cs : List Call} (h : log.drawn + cs.countP (·.draws) < countLimit) :
    calls log cs = .ok (log.calls cs) := by
  induction cs generalizing log with
  | nil => rfl
  | cons c cs ih =>
    obtain ⟨hfirst, hrest⟩ := numbers_cons h
    rw [calls, call_eq hfirst, ok_bind, ih hrest]
    rfl

theorem idsDrawn_eq {cs : List Call} (h : log.drawn + cs.countP (·.draws) < countLimit) :
    idsDrawn log cs = .ok (log.idsDrawn cs) := by
  induction cs generalizing log with
  | nil => rfl
  | cons c cs ih =>
    obtain ⟨hfirst, hrest⟩ := numbers_cons h
    rw [idsDrawn, drawnBy_eq hfirst, ok_bind, call_eq hfirst, ok_bind, ih hrest]
    rfl

/-- A run that is to draw more ids than there are numbers does not come to its end. -/
theorem calls_last {cs : List Call} (hlog : log.drawn < countLimit)
    (h : countLimit ≤ log.drawn + cs.countP (·.draws)) :
    calls log cs = .error (.overflow .addition) := by
  induction cs generalizing log with
  | nil => exact absurd hlog (Nat.not_lt.2 h)
  | cons c cs ih =>
    rw [countP_draws_cons, ← Nat.add_assoc, ← drawn_call] at h
    -- Either this call draws the number that is not there, or one of the rest does.
    by_cases hlast : c.draws = true ∧ countLimit ≤ log.drawn + 1
    · rw [calls, call_last hlast.1 hlast.2]
      rfl
    · have hroom : c.draws = true → log.drawn + 1 < countLimit := fun hdraws =>
        Nat.lt_of_not_le fun hle => hlast ⟨hdraws, hle⟩
      have hnext : (log.call c).drawn < countLimit := by
        rw [drawn_call]
        cases hdraws : c.draws with
        | true => exact hroom hdraws
        | false => exact hlog
      rw [calls, call_eq hroom, ok_bind, ih hnext h]

end Checked

end CText
