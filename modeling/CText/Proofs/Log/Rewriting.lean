import CText.Proofs.Json.Faithful
import CText.Proofs.Log.Breaches
import CText.Proofs.Log.Lines

/-!
# Accepted lines can be written again

The entry on a line that is accepted has a trace id of three parts and numbers of the size of their
fields, and its details, without floating numbers, can be read back. Written again it is accepted as
the same entry, unless it is a failure without a symbol. Such an entry comes from a line that gives
the outcome as an object, for which no symbol is asked, and from no other.
-/

namespace CText.Log

variable {e : Entry} {j : Json}

/-- The fields of an entry are what is read from a value. -/
structure Entry.ReadFrom (e : Entry) (j : Json) : Prop where
  timestamp : readField Json.text? j "timestamp" = some e.timestamp
  traceId : readField Json.text? j "trace_id" = some e.traceId
  level : readField readName j "level" = some e.level
  event : readField Json.text? j "event" = some e.event
  campaign : readOptional Json.text? j "campaign" = some e.campaign
  stream : readOptional readName j "stream" = some e.stream
  family : readOptional Json.text? j "family" = some e.family
  symbol : readOptional Json.text? j "symbol" = some e.symbol
  outcome : readOptional readName j "outcome" = some e.outcome
  errno : readOptional readErrno j "errno" = some e.errno
  latencyNs : readOptional readCount j "latency_ns" = some e.latencyNs
  durationMs : readOptional readCount j "duration_ms" = some e.durationMs
  artifactRefs : readOptional readTexts j "artifact_refs" = some e.artifactRefs
  details : readOptional some j "details" = some e.details

theorem Entry.readFrom_of_ofJson? (h : Entry.ofJson? j = some e) : e.ReadFrom j := by
  rw [Entry.ofJson?] at h
  obtain ⟨timestamp, htimestamp, h⟩ := Option.bind_eq_some_iff.1 h
  obtain ⟨traceId, htraceId, h⟩ := Option.bind_eq_some_iff.1 h
  obtain ⟨level, hlevel, h⟩ := Option.bind_eq_some_iff.1 h
  obtain ⟨event, hevent, h⟩ := Option.bind_eq_some_iff.1 h
  obtain ⟨campaign, hcampaign, h⟩ := Option.bind_eq_some_iff.1 h
  obtain ⟨stream, hstream, h⟩ := Option.bind_eq_some_iff.1 h
  obtain ⟨family, hfamily, h⟩ := Option.bind_eq_some_iff.1 h
  obtain ⟨symbol, hsymbol, h⟩ := Option.bind_eq_some_iff.1 h
  obtain ⟨outcome, houtcome, h⟩ := Option.bind_eq_some_iff.1 h
  obtain ⟨errno, herrno, h⟩ := Option.bind_eq_some_iff.1 h
  obtain ⟨latency, hlatency, h⟩ := Option.bind_eq_some_iff.1 h
  obtain ⟨duration, hduration, h⟩ := Option.bind_eq_some_iff.1 h
  obtain ⟨artifacts, hartifacts, h⟩ := Option.bind_eq_some_iff.1 h
  obtain ⟨details, hdetails, h⟩ := Option.bind_eq_some_iff.1 h
  cases h
  exact ⟨htimestamp, htraceId, hlevel, hevent, hcampaign, hstream, hfamily, hsymbol,
    houtcome, herrno, hlatency, hduration, hartifacts, hdetails⟩

theorem readOptional_eq_some {α : Type} {read : Json → Option α} {key : String} {a : α}
    (h : readOptional read j key = some (some a)) :
    ∃ v, j.get? key = some v ∧ v ≠ .null ∧ read v = some a := by
  unfold readOptional at h
  split at h
  next => cases h
  next => cases h
  next v hnull hv =>
    obtain ⟨a', hread, hsome⟩ := Option.map_eq_some_iff.1 h
    cases hsome
    exact ⟨v, hv, hnull, hread⟩

theorem eq_text_of_text? {v : Json} {s : String} (h : Json.text? v = some s) : v = .text s := by
  cases v with
  | text s' =>
    cases h
    rfl
  | _ => cases h

theorem range_of_readWhole {low high n : Int} {v : Json} (h : readWhole low high v = some n) :
    low ≤ n ∧ n ≤ high := by
  unfold readWhole at h
  split at h
  · split_ifs at h with hrange
    cases h
    exact hrange
  · cases h

theorem le_countMax_of_readCount {n : Nat} {v : Json} (h : readCount v = some n) :
    n ≤ countMax := by
  obtain ⟨m, hm, rfl⟩ := Option.map_eq_some_iff.1 h
  obtain ⟨hlow, hhigh⟩ := range_of_readWhole hm
  omega

theorem mem_of_get? {members : List (String × Json)} {key : String} {v : Json}
    (h : (Json.object members).get? key = some v) : (key, v) ∈ members := by
  obtain ⟨before, after, rfl, -⟩ := List.lookup_eq_some_iff.1 h
  simp

variable {line : String} {members : List (String × Json)}

/-- The line of an entry that was read can be read, if its details hold no floating number. -/
theorem Entry.ReadFrom.fitting (hfrom : e.ReadFrom (.object members))
    (hread : Json.read line = .ok (.object members))
    (free : ∀ d, e.details = some d → d.FloatFree) : e.Fitting := by
  constructor
  · intro n hn
    obtain ⟨v, -, -, hv⟩ := readOptional_eq_some (hfrom.errno.trans (congrArg some hn))
    exact range_of_readWhole hv
  · intro n hn
    obtain ⟨v, -, -, hv⟩ := readOptional_eq_some (hfrom.latencyNs.trans (congrArg some hn))
    exact le_countMax_of_readCount hv
  · intro n hn
    obtain ⟨v, -, -, hv⟩ := readOptional_eq_some (hfrom.durationMs.trans (congrArg some hn))
    exact le_countMax_of_readCount hv
  · intro d hd
    obtain ⟨v, hmember, hnull, hv⟩ :=
      readOptional_eq_some (hfrom.details.trans (congrArg some hd))
    cases hv
    exact ⟨hnull, Json.plain_of_read_object hread _ (mem_of_get? hmember) (free d hd)⟩

/-- The trace id of an entry that was read from an object without breaches has three parts. -/
theorem Entry.ReadFrom.traced (hfrom : e.ReadFrom j) (clean : ∀ b, ¬ Breaks j b) :
    partCount e.traceId.toList = 3 := by
  obtain ⟨v, hpresent, htext⟩ := Option.bind_eq_some_iff.1 hfrom.traceId
  rw [eq_text_of_text? htext] at hpresent
  by_contra hparts
  refine clean _ (.oddTraceId hpresent fun campaign run number hthree => ?_)
  exact hparts ((partCount_eq_three_iff _).2 ⟨campaign, run, number, hthree⟩)

/-! ## Failures without a symbol -/

/-- A value that gives the outcome as a failure in the form of an object, and no text for a
symbol. -/
structure HidesFailure (j : Json) : Prop where
  failed : j.get? "outcome" = some (.object [("fail", .null)])
  unnamed : ∀ symbol, j.get? "symbol" ≠ some (.text symbol)

theorem readName_fail_cases {v : Json} (h : readName v = some Outcome.fail) :
    v = .text "fail" ∨ v = .object [("fail", .null)] := by
  have hname {s : String} (hs : Named.ofName? s = some Outcome.fail) : s = "fail" := by
    have := List.find?_some hs
    exact (beq_iff_eq.1 this).symm
  unfold readName at h
  split at h
  next s => exact .inl (congrArg Json.text (hname h))
  next key => exact .inr (by rw [hname h])
  next => cases h

theorem Entry.ReadFrom.symbol_eq_none_iff (hfrom : e.ReadFrom j) :
    e.symbol = none ↔ ∀ symbol, j.get? "symbol" ≠ some (.text symbol) := by
  constructor
  · intro hnone symbol hpresent
    have hread := hfrom.symbol
    rw [hnone, readOptional, hpresent] at hread
    cases hread
  · intro hunnamed
    by_contra hsome
    obtain ⟨symbol, hsymbol⟩ := Option.ne_none_iff_exists'.1 hsome
    obtain ⟨v, hpresent, -, htext⟩ :=
      readOptional_eq_some (hfrom.symbol.trans (congrArg some hsymbol))
    rw [eq_text_of_text? htext] at hpresent
    exact hunnamed symbol hpresent

/-- An entry read from an object without breaches is a failure without a symbol just if the object
gives the failure in the form of an object. -/
theorem Entry.ReadFrom.unnamed_iff (hfrom : e.ReadFrom j) (clean : ∀ b, ¬ Breaks j b) :
    e.outcome = some .fail ∧ e.symbol = none ↔ HidesFailure j := by
  rw [hfrom.symbol_eq_none_iff]
  constructor
  · rintro ⟨hfail, hunnamed⟩
    obtain ⟨v, hpresent, -, hv⟩ := readOptional_eq_some (hfrom.outcome.trans (congrArg some hfail))
    rcases readName_fail_cases hv with rfl | rfl
    · exact absurd (.unnamedFailure hpresent hunnamed) (clean _)
    · exact ⟨hpresent, hunnamed⟩
  · rintro ⟨hfail, hunnamed⟩
    have hread := hfrom.outcome
    rw [readOptional, hfail] at hread
    exact ⟨(Option.some.inj hread).symm, hunnamed⟩

/-- The line of a failure without a symbol is refused for that alone. -/
theorem Entry.Fitting.readLine_unnamed (fitting : e.Fitting)
    (traced : partCount e.traceId.toList = 3) (hfail : e.outcome = some .fail)
    (hunnamed : e.symbol = none) : readLine e.line = .error [.unnamedFailure] := by
  obtain ⟨found, hread, hstands⟩ := fitting.read_line
  have hbreaches : breaches (.object found) = [.unnamedFailure] := by
    rw [breaches_of_traced hstands traced, failureBreaches, textField_map hstands.outcome,
      textField_map hstands.symbol, hfail, hunnamed]
    rfl
  simp only [readLine, hread, hbreaches]

/-! ## Lines -/

/-- An object that is written can be judged without reading it back. -/
theorem readLine_compact {written : List (String × Json)}
    (plain : ∀ member ∈ written, Json.Plain (Json.Document.depthLimit - 1) member.2)
    (distinct : (written.map (·.1)).Nodup) (hclean : breaches (.object written) = [])
    (hentry : Entry.ofJson? (.object written) = some e) :
    ∃ found, Json.read (Json.compact (.object written)) = .ok (.object found) ∧
      (∀ key, (Json.object found).get? key = (Json.object written).get? key) ∧
      readLine (Json.compact (.object written)) = .ok e := by
  obtain ⟨found, hread, hfound⟩ := Json.read_compact_object plain distinct
  have hsame (key : String) : (Json.object found).get? key = (Json.object written).get? key :=
    hfound key
  have hbreaches : breaches (.object found) = [] := by
    rw [breaches_eq_nil_iff] at hclean ⊢
    exact fun b hb => hclean b (hb.of_get?_eq hsame)
  have hfoundEntry : Entry.ofJson? (.object found) = some e := by
    rw [← hentry]
    simp only [Entry.ofJson?, readField, readOptional, hsame]
  refine ⟨found, hread, hsame, ?_⟩
  simp only [readLine, hread, hbreaches, hfoundEntry]

/-- What is told of a line with an object are the ways in which the object breaks the contract, each
once and with the number of the line, or else that an entry cannot be made of it. A line that is
accepted and whose details hold no floating number is accepted again, with the same entry, when the
entry is written, and its failure names a symbol. This holds unless the failure was given in the form
of an object: then no symbol need be named, and what is written is refused. -/
theorem findings_complete_and_rewritable (line : String) :
    (∀ members, Json.read line = .ok (.object members) → ∀ n, (findings n line).Nodup ∧
      ∀ f, f ∈ findings n line ↔ f.line = n ∧ (Breaks (.object members) f.breach ∨
        f.breach = .misshapen ∧ (∀ b, ¬ Breaks (.object members) b) ∧
          Entry.ofJson? (.object members) = none)) ∧
    ∀ e, readLine line = .ok e → (∀ d, e.details = some d → d.FloatFree) →
      ∃ members, Json.read line = .ok (.object members) ∧
        (¬ HidesFailure (.object members) →
          (e.outcome = some .fail → ∃ symbol, e.symbol = some symbol) ∧ readLine e.line = .ok e) ∧
        (HidesFailure (.object members) → e.outcome = some .fail ∧ e.symbol = none ∧
          readLine e.line = .error [.unnamedFailure]) := by
  constructor
  · intro members hread n
    exact ⟨nodup_findings hread n, mem_findings_iff hread n⟩
  · intro e hline free
    obtain ⟨members, hread⟩ := exists_object_of_readLine hline
    obtain ⟨hclean, hentry⟩ := clean_of_readLine hread hline
    have hfrom := Entry.readFrom_of_ofJson? hentry
    have hfitting := hfrom.fitting hread free
    have htraced := hfrom.traced hclean
    refine ⟨members, hread, ?_, ?_⟩
    · intro hopen
      have hnamed : e.outcome = some .fail → e.symbol ≠ none := fun hfail hunnamed =>
        hopen ((hfrom.unnamed_iff hclean).1 ⟨hfail, hunnamed⟩)
      have hproper : e.Proper :=
        ⟨htraced, hnamed, hfitting.errno, hfitting.latency, hfitting.duration, hfitting.details⟩
      exact ⟨fun hfail => Option.ne_none_iff_exists'.1 (hnamed hfail), hproper.readLine_line⟩
    · intro hhidden
      obtain ⟨hfail, hunnamed⟩ := (hfrom.unnamed_iff hclean).2 hhidden
      exact ⟨hfail, hunnamed, hfitting.readLine_unnamed htraced hfail hunnamed⟩

/-- The members of a line on a failure, with the outcome and what else is said of it. -/
def failureMembers (outcome : Json) (others : List (String × Json)) : List (String × Json) :=
  [("timestamp", .text "t"), ("trace_id", .text "a::b::c"), ("level", .text "info"),
    ("event", .text "e"), ("outcome", outcome)] ++ others

theorem plain_failureMembers {depth : Nat} {outcome : Json} {others : List (String × Json)}
    (houtcome : Json.Plain depth outcome) (hothers : ∀ member ∈ others, Json.Plain depth member.2) :
    ∀ member ∈ failureMembers outcome others, Json.Plain depth member.2 := by
  simp only [failureMembers, List.forall_mem_append, List.forall_mem_cons]
  refine ⟨⟨.text _, .text _, .text _, .text _, houtcome, ?_⟩, hothers⟩
  rintro member ⟨⟩

/-- A line on a failure that names its symbol and has details. -/
theorem named_failure_rewritable :
    let line := "\x7b\"timestamp\":\"t\",\"trace_id\":\"a::b::c\",\"level\":\"info\",\"event\":\"e\"," ++
      "\"outcome\":\"fail\",\"symbol\":\"strlen\",\"details\":[1]\x7d"
    ∃ e, readLine line = .ok e ∧ (∀ d, e.details = some d → d.FloatFree) ∧
      findings 1 line = [] ∧ readLine e.line = .ok e := by
  intro line
  let others : List (String × Json) := [("symbol", .text "strlen"), ("details", .list [.ofNat 1])]
  let e : Entry :=
    { timestamp := "t", traceId := "a::b::c", level := .info, event := "e", outcome := some .fail,
      symbol := some "strlen", details := some (.list [.ofNat 1]) }
  have hwritten : line = Json.compact (.object (failureMembers (.text "fail") others)) := by
    decide +kernel
  have hothers : ∀ member ∈ others, Json.Plain (Json.Document.depthLimit - 1) member.2 := by
    have hlist : Json.Plain (Json.Document.depthLimit - 1) (.list [.ofNat 1]) :=
      .list fun item hitem => List.mem_singleton.1 hitem ▸ .whole (by constructor <;> decide)
    simp only [others, List.forall_mem_cons]
    exact ⟨.text _, hlist, fun member h => nomatch h⟩
  obtain ⟨found, hread, hsame, hline⟩ :=
    readLine_compact (e := e) (plain_failureMembers (.text "fail") hothers) (by decide) rfl rfl
  rw [← hwritten] at hread hline
  have hfree : ∀ d, e.details = some d → d.FloatFree := by
    rintro d ⟨⟩
    exact .list fun item hitem => List.mem_singleton.1 hitem ▸ .whole 1
  obtain ⟨members, hmembers, hopen, -⟩ := (findings_complete_and_rewritable line).2 e hline hfree
  have hnot : ¬ HidesFailure (.object members) := by
    rintro ⟨hfailed, -⟩
    rw [hread] at hmembers
    cases hmembers
    rw [hsame] at hfailed
    cases hfailed
  exact ⟨e, hline, hfree, by rw [findings, hline], (hopen hnot).2⟩

/-- A line that gives its failure in the form of an object and names no symbol is accepted, and what
is written of its entry is refused. -/
theorem hidden_failure_refused :
    let line := "\x7b\"timestamp\":\"t\",\"trace_id\":\"a::b::c\",\"level\":\"info\",\"event\":\"e\"," ++
      "\"outcome\":\x7b\"fail\":null\x7d\x7d"
    ∃ e, readLine line = .ok e ∧ e.details = none ∧ e.outcome = some .fail ∧ e.symbol = none ∧
      findings 1 line = [] ∧ findings 1 e.line = [⟨1, .unnamedFailure⟩] := by
  intro line
  let e : Entry :=
    { timestamp := "t", traceId := "a::b::c", level := .info, event := "e", outcome := some .fail }
  have hwritten : line = Json.compact (.object (failureMembers (.object [("fail", .null)]) [])) := by
    decide +kernel
  have houtcome : Json.Plain (Json.Document.depthLimit - 1) (.object [("fail", .null)]) :=
    .object (fun member h => List.mem_singleton.1 h ▸ .null) (List.pairwise_singleton _ _)
  have hothers : ∀ member ∈ ([] : List (String × Json)),
      Json.Plain (Json.Document.depthLimit - 1) member.2 := nofun
  obtain ⟨found, -, -, hline⟩ :=
    readLine_compact (e := e) (plain_failureMembers houtcome hothers) (by decide) rfl rfl
  rw [← hwritten] at hline
  have hfitting : e.Fitting := by
    constructor <;> rintro _ ⟨⟩
  have hrefused := hfitting.readLine_unnamed (by decide) rfl rfl
  exact ⟨e, hline, rfl, rfl, rfl, by rw [findings, hline], by rw [findings, hrefused]; rfl⟩

end CText.Log
