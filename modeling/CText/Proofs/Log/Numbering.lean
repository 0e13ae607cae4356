import CText.Proofs.Conformance.WholeLog
import CText.Proofs.Log.Calls
import CText.Proofs.Text.Padded
import Mathlib.Data.List.Nodup

/-!
# The numbers of a log

The ids that the calls of an emitter draw are numbered one after the other and differ, up to the
last number of the counter. An entry with an id of its own draws none. The line of an entry under a
drawn id is read as that entry, unless a field of the entry is at fault or its details are too deep.
-/

namespace CText

namespace Log.Emitter

theorem traceId_injective (log : Emitter) {m n : Nat} (h : log.traceId m = log.traceId n) :
    m = n := by
  have hchars := congrArg String.toList h
  rw [toList_traceId, toList_traceId] at hchars
  simp only [List.append_cancel_left_eq, List.cons.injEq, true_and] at hchars
  exact Text.padded_injective hchars

/-- Whatever calls are made of an emitter that starts under names without a colon, as long as they
draw fewer ids than a counter of 64 bits has numbers, the run comes to its end, the `n`-th id drawn
has the number `n`, no two ids are the same, and there are as many as there are calls that draw. The
lines are those of the entries written. One of these that has a drawn id and no slip in its fields
is read back from its line just if its details are not deeper than reading goes. A run that is to
draw more ids breaks the promise of its counter. -/
theorem drawn_ids_numbered_and_read {campaign runId : String} (hcampaign : ':' ∉ campaign.toList)
    (hrun : ':' ∉ runId.toList) (cs : List Call) :
    let log := start campaign runId
    (cs.countP (·.draws) < 2 ^ 64 →
      Checked.calls log cs = .ok (log.calls cs) ∧
      Checked.idsDrawn log cs = .ok (log.idsDrawn cs) ∧
      (∀ n id, (log.idsDrawn cs)[n]? = some id →
        id = campaign ++ "::" ++ runId ++ "::" ++ String.ofList (Text.padded 3 (n + 1))) ∧
      (log.idsDrawn cs).Nodup ∧
      (log.idsDrawn cs).length = cs.countP (·.draws) ∧
      (log.calls cs).lines.toList = (log.entriesWritten cs).map Entry.line ∧
      ∀ e ∈ log.entriesWritten cs, e.traceId ∈ log.idsDrawn cs → e.Exact →
        (readLine e.line = .ok e ↔
          ∀ j, e.details = some j → j.Plain (Json.Document.depthLimit - 1))) ∧
    (2 ^ 64 ≤ cs.countP (·.draws) → Checked.calls log cs = .error (.overflow .addition)) := by
  intro log
  have hstart (n : Nat) : log.drawn + n = n := Nat.zero_add n
  constructor
  · intro hcount
    have hids := log.idsDrawn_eq cs
    have hnumbers : log.drawn + cs.countP (·.draws) < Checked.countLimit := by rwa [hstart]
    refine ⟨Checked.calls_eq hnumbers, Checked.idsDrawn_eq hnumbers, ?_, ?_, ?_, ?_, ?_⟩
    · intro n id hid
      rw [hids, List.getElem?_map, Option.map_eq_some_iff] at hid
      obtain ⟨number, hnumber, rfl⟩ := hid
      obtain ⟨hn, rfl⟩ := List.getElem?_eq_some_iff.1 hnumber
      simp [traceId, log, start, Nat.add_comm]
    · rw [hids]
      exact List.Nodup.map (fun m n h => log.traceId_injective h) List.nodup_range'
    · rw [hids, List.length_map, List.length_range']
    · exact log.lines_calls cs
    · intro e _ hdrawn exact
      rw [hids] at hdrawn
      obtain ⟨n, -, hn⟩ := List.mem_map.1 hdrawn
      refine exact.readLine_eq_iff ?_
      rw [← hn]
      exact partCount_traceId hcampaign hrun n
  · intro hcount
    apply Checked.calls_last
    · exact show 0 < Checked.countLimit by decide
    · rwa [hstart]

/-- An entry without numbers has none at fault. -/
theorem exact_of_uncounted {e : Entry} (herrno : e.errno = none) (hlatency : e.latencyNs = none)
    (hduration : e.durationMs = none) (named : e.outcome = some .fail → e.symbol ≠ none)
    (details : ∀ j, e.details = some j → j ≠ .null ∧ ∃ depth, j.Plain depth) : e.Exact where
  named := named
  errno n h := by
    rw [herrno] at h
    cases h
  latency n h := by
    rw [hlatency] at h
    cases h
  duration n h := by
    rw [hduration] at h
    cases h
  details := details

/-- An entry that is written late, one with an id of its own, one without, and one that is written
at once. -/
def numberedSample : List Call :=
  let late : Entry :=
    { timestamp := "t1", traceId := "nightly::r1::001", level := .info, event := "late" }
  let foreign : Entry :=
    { timestamp := "t2", traceId := "weekly::r0::007", level := .warn, event := "foreign" }
  let failed : Entry :=
    { timestamp := "t3", traceId := "", level := .error, event := "failed", symbol := some "strlen",
      outcome := some .fail, details := some (.list [.null]) }
  [.entry "t1" .info "late", .emitEntry foreign, .emitEntry failed, .emitEntry late,
    .emit "t4" .info "last"]

theorem drawn_ids_numbered_sample :
    let log := start "nightly" "r1"
    ':' ∉ "nightly".toList ∧ ':' ∉ "r1".toList ∧ numberedSample.countP (·.draws) < 2 ^ 64 ∧
    Checked.calls log numberedSample = .ok (log.calls numberedSample) ∧
    Checked.idsDrawn log numberedSample =
      .ok ["nightly::r1::001", "nightly::r1::002", "nightly::r1::003"] ∧
    (log.idsDrawn numberedSample).Nodup ∧
    ∃ e ∈ log.entriesWritten numberedSample, e.traceId = "nightly::r1::002" ∧
      e.campaign = some "nightly" ∧ e.outcome = some .fail ∧ e.Exact ∧ readLine e.line = .ok e := by
  intro log
  have hcampaign : ':' ∉ "nightly".toList := by decide
  have hrun : ':' ∉ "r1".toList := by decide
  have hcount : numberedSample.countP (·.draws) < 2 ^ 64 := by decide
  obtain ⟨hcalls, hchecked, -, hnodup, -, -, hread⟩ :=
    (drawn_ids_numbered_and_read hcampaign hrun numberedSample).1 hcount
  have hids : log.idsDrawn numberedSample =
      ["nightly::r1::001", "nightly::r1::002", "nightly::r1::003"] := by decide
  let failed := (log.entriesWritten numberedSample).get ⟨1, by decide⟩
  have hid : failed.traceId = "nightly::r1::002" := by decide
  have plain (depth : Nat) : Json.Plain (depth + 1) (.list [.null]) := by
    refine .list fun item hitem => ?_
    rw [List.mem_singleton.1 hitem]
    exact .null
  have exact : failed.Exact :=
    exact_of_uncounted rfl rfl rfl (fun _ => Option.some_ne_none _) fun j h => by
      cases h
      exact ⟨Json.noConfusion, 1, plain 0⟩
  have hdrawn : failed.traceId ∈ log.idsDrawn numberedSample := by
    rw [hids, hid]
    decide
  have hfailed : failed ∈ log.entriesWritten numberedSample := List.get_mem _ _
  refine ⟨hcampaign, hrun, hcount, hcalls, hids ▸ hchecked, hnodup, failed, hfailed, hid, rfl, rfl, exact, ?_⟩
  refine (hread failed hfailed hdrawn exact).2 fun j h => ?_
  cases h
  exact plain 125

/-! ## Details that are too deep -/

/-- Lists in an outermost list, as many as given. -/
def nested : Nat → Json
  | 0 => .list []
  | depth + 1 => .list [nested depth]

theorem plain_nested_iff {depth limit : Nat} : (nested depth).Plain limit ↔ depth < limit := by
  induction depth generalizing limit with
  | zero =>
    constructor
    · rintro ⟨⟩
      exact Nat.succ_pos _
    · intro h
      obtain ⟨limit, rfl⟩ := Nat.exists_eq_succ_of_ne_zero (Nat.pos_iff_ne_zero.1 h)
      exact .list fun _ h => nomatch h
  | succ depth ih =>
    constructor
    · intro h
      cases h with
      | list plain => exact Nat.succ_lt_succ (ih.1 (plain _ List.mem_cons_self))
    · intro h
      obtain ⟨limit, rfl⟩ := Nat.exists_eq_succ_of_ne_zero (Nat.ne_zero_of_lt h)
      refine .list fun item hitem => ?_
      rw [List.mem_singleton.1 hitem]
      exact ih.2 (Nat.lt_of_succ_lt_succ h)

/-- An entry with 127 lists in one another is written under a drawn id, with no outcome and with
details that are neither `null` nor hold a floating number. Its line is no JSON to its reader. -/
theorem deep_details_refused :
    let log := start "c" "r"
    let e : Entry :=
      { timestamp := "2026-10-19T08:15:02.114Z", traceId := "", level := .info, event := "deep",
        details := some (nested 126) }
    let written := log.completed e
    log.idsDrawn [.emitEntry e] = ["c::r::001"] ∧
      log.entriesWritten [.emitEntry e] = [written] ∧ written.traceId = "c::r::001" ∧
      written.outcome = none ∧ written.details = some (nested 126) ∧ nested 126 ≠ .null ∧
      (nested 126).Plain 127 ∧ readLine written.line = .error [.notJson .malformed] := by
  intro log e written
  have plain : (nested 126).Plain 127 := plain_nested_iff.2 (by decide)
  have exact : written.Exact :=
    exact_of_uncounted rfl rfl rfl (fun h => nomatch h) fun j h => by
      cases h
      exact ⟨Json.noConfusion, 127, plain⟩
  have traced : partCount written.traceId.toList = 3 := by decide
  have deep : ¬ (nested 126).Plain (Json.Document.depthLimit - 1) :=
    mt plain_nested_iff.1 (by decide)
  exact ⟨by decide, rfl, by decide, rfl, rfl, Json.noConfusion, plain,
    exact.readLine_deep traced rfl deep⟩

end Log.Emitter

end CText
