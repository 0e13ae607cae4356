import CText.Log.Contract
import CText.Proofs.Json.Plain

/-!
# Lines are read back as the entries that were written

An entry whose trace id has three parts, whose failure names a symbol, whose numbers have the size
of their fields, and whose details can be read back keeps the contract of a log: its line is read,
without a breach, as the entry itself. If only the details are too deep to be read back, the line is
no JSON to its reader.
-/

namespace CText.Log

/-- An entry that a line can hold and that keeps the contract. -/
structure Entry.Proper (e : Entry) : Prop where
  traced : partCount e.traceId.toList = 3
  named : e.outcome = some .fail → e.symbol ≠ none
  errno : ∀ n, e.errno = some n → -2147483648 ≤ n ∧ n ≤ 2147483647
  latency : ∀ n, e.latencyNs = some n → n ≤ countMax
  duration : ∀ n, e.durationMs = some n → n ≤ countMax
  details : ∀ j, e.details = some j → j ≠ .null ∧ j.Plain (Json.Document.depthLimit - 1)

/-- An entry that a line can hold, whether or not it keeps the contract. -/
structure Entry.Fitting (e : Entry) : Prop where
  errno : ∀ n, e.errno = some n → -2147483648 ≤ n ∧ n ≤ 2147483647
  latency : ∀ n, e.latencyNs = some n → n ≤ countMax
  duration : ∀ n, e.durationMs = some n → n ≤ countMax
  details : ∀ j, e.details = some j → j ≠ .null ∧ j.Plain (Json.Document.depthLimit - 1)

theorem Entry.Proper.fitting {e : Entry} (proper : e.Proper) : e.Fitting :=
  ⟨proper.errno, proper.latency, proper.duration, proper.details⟩

/-! ## Fields -/

section

variable {α : Type} (k : String) (encode : α → Json) (o : Option α)

theorem lookup_optional (key : String) :
    (optional k encode o).lookup key = if key = k then o.map encode else none := by
  cases o with
  | none => simp [optional]
  | some a =>
    rw [optional, Json.lookup_cons_eq]
    rfl

theorem forall_mem_optional {P : String × Json → Prop} :
    (∀ p ∈ optional k encode o, P p) ↔ ∀ a, o = some a → P (k, encode a) := by
  cases o <;> simp [optional]

theorem optional_sublist : ((optional k encode o).map (·.1)).Sublist [k] := by
  cases o with
  | none => exact List.nil_sublist _
  | some a => exact List.Sublist.refl _

end

def Entry.members (e : Entry) : List (String × Json) :=
  [("timestamp", .text e.timestamp), ("trace_id", .text e.traceId), ("level", nameJson e.level),
      ("event", .text e.event)] ++
    optional "campaign" .text e.campaign ++ optional "stream" nameJson e.stream ++
    optional "family" .text e.family ++ optional "symbol" .text e.symbol ++
    optional "outcome" nameJson e.outcome ++ optional "errno" .ofInt e.errno ++
    optional "latency_ns" .ofNat e.latencyNs ++ optional "duration_ms" .ofNat e.durationMs ++
    optional "artifact_refs" .ofTexts e.artifactRefs ++ optional "details" id e.details

theorem Entry.toJson_eq (e : Entry) : e.toJson = .object e.members := rfl

theorem Entry.members_distinct (e : Entry) : (e.members.map (·.1)).Nodup := by
  have names : (["timestamp", "trace_id", "level", "event"] ++ ["campaign"] ++ ["stream"] ++
      ["family"] ++ ["symbol"] ++ ["outcome"] ++ ["errno"] ++ ["latency_ns"] ++ ["duration_ms"] ++
      ["artifact_refs"] ++ ["details"]).Nodup := by
    decide
  refine List.Sublist.nodup ?_ names
  simp only [members, List.map_append]
  repeat refine List.Sublist.append ?_ (optional_sublist ..)
  exact List.Sublist.refl _

/-- The fields of an entry stand in a value, and no others of these names. -/
structure Entry.StandsIn (e : Entry) (j : Json) : Prop where
  timestamp : j.get? "timestamp" = some (.text e.timestamp)
  traceId : j.get? "trace_id" = some (.text e.traceId)
  level : j.get? "level" = some (nameJson e.level)
  event : j.get? "event" = some (.text e.event)
  campaign : j.get? "campaign" = e.campaign.map .text
  stream : j.get? "stream" = e.stream.map nameJson
  family : j.get? "family" = e.family.map .text
  symbol : j.get? "symbol" = e.symbol.map .text
  outcome : j.get? "outcome" = e.outcome.map nameJson
  errno : j.get? "errno" = e.errno.map .ofInt
  latencyNs : j.get? "latency_ns" = e.latencyNs.map .ofNat
  durationMs : j.get? "duration_ms" = e.durationMs.map .ofNat
  artifactRefs : j.get? "artifact_refs" = e.artifactRefs.map .ofTexts
  details : j.get? "details" = e.details

theorem Entry.standsIn (e : Entry) {found : List (String × Json)}
    (h : ∀ key, found.lookup key = e.members.lookup key) : e.StandsIn (.object found) := by
  constructor
  all_goals
    rw [Json.get?, h]
    simp [members, List.lookup_append, lookup_optional, Json.lookup_cons_eq]

/-! ## Names -/

/-- A type whose members have different names. -/
def TellsApart (α : Type) [Named α] : Prop := ∀ a : α, Named.ofName? (Named.name a) = some a

theorem tellsApart_level : TellsApart Level := by
  intro a
  cases a <;> decide

theorem tellsApart_outcome : TellsApart Outcome := by
  intro a
  cases a <;> decide

theorem tellsApart_stream : TellsApart Stream := by
  intro a
  cases a <;> decide

theorem TellsApart.readName {α : Type} [Named α] (h : TellsApart α) (a : α) :
    readName (nameJson a) = some a :=
  h a

theorem TellsApart.eq_of_name {α : Type} [Named α] (h : TellsApart α) {a b : α}
    (hname : Named.name a = Named.name b) : a = b := by
  have ha := h a
  rw [hname, h b] at ha
  exact (Option.some.inj ha).symm

theorem TellsApart.mem_names {α : Type} [Named α] (h : TellsApart α) (a : α) :
    (Named.names α).contains (Named.name a) = true := by
  rw [Named.names, List.contains_iff_mem]
  exact List.mem_map_of_mem (List.mem_of_find?_eq_some (h a))

/-! ## Reading -/

theorem textField_map {α : Type} {text : α → String} {j : Json} {key : String} {o : Option α}
    (h : j.get? key = o.map fun a => .text (text a)) : textField j key = o.map text := by
  rw [textField, h]
  cases o <;> rfl

/-- A field with the name of a member is no breach, nor is a missing one. -/
theorem nameBreaches_eq_nil {α : Type} [Named α] (apart : TellsApart α) {j : Json} {key : String}
    {o : Option α} (h : j.get? key = o.map nameJson) :
    nameBreaches j key (Named.names α) = [] := by
  rw [nameBreaches, textField_map h]
  cases o with
  | none => rfl
  | some a => exact if_pos (apart.mem_names a)

theorem readOptional_map {α : Type} {read : Json → Option α} {encode : α → Json} {j : Json}
    {key : String} {o : Option α} (h : j.get? key = o.map encode)
    (hread : ∀ a, o = some a → read (encode a) = some a ∧ encode a ≠ .null) :
    readOptional read j key = some o := by
  cases o with
  | none =>
    rw [readOptional, h]
    rfl
  | some a =>
    obtain ⟨hsome, hnull⟩ := hread a rfl
    rw [readOptional, h, Option.map_some]
    split
    next heq => cases heq
    next heq => exact absurd (Option.some.inj heq) hnull
    next v _ heq =>
      rw [← Option.some.inj heq, hsome]
      rfl

theorem readWhole_eq {low high n : Int} (h : low ≤ n ∧ n ≤ high) :
    readWhole low high (.ofInt n) = some n :=
  if_pos h

theorem readCount_ofNat {n : Nat} (h : n ≤ countMax) : readCount (.ofNat n) = some n := by
  have : (0 : Int) ≤ n ∧ (n : Int) ≤ countMax := by omega
  rw [readCount, Json.ofNat, ← Json.ofInt, readWhole_eq this]
  rfl

theorem readTexts_ofTexts (texts : List String) : readTexts (.ofTexts texts) = some texts := by
  rw [Json.ofTexts, readTexts]
  induction texts with
  | nil => rfl
  | cons s texts ih =>
    rw [List.map_cons, List.mapM_cons, ih]
    rfl

variable {e : Entry} {j : Json}

/-- The only breach by an entry whose trace id has three parts can be a failure without a symbol. -/
theorem breaches_of_traced (h : e.StandsIn j) (traced : partCount e.traceId.toList = 3) :
    breaches j = failureBreaches j := by
  have hmissing : (requiredFields.filter fun field => (j.get? field).isNone) = [] := by
    simp [requiredFields, h.timestamp, h.traceId, h.level, h.event]
  have hlevel : nameBreaches j "level" (Named.names Level) = [] :=
    nameBreaches_eq_nil (o := some e.level) tellsApart_level h.level
  have htrace : traceIdBreaches j = [] := by
    rw [traceIdBreaches, textField, h.traceId]
    exact if_pos traced
  rw [breaches, hmissing, hlevel, nameBreaches_eq_nil tellsApart_outcome h.outcome,
    nameBreaches_eq_nil tellsApart_stream h.stream, htrace, List.append_nil]
  rfl

theorem breaches_eq_nil (h : e.StandsIn j) (proper : e.Proper) : breaches j = [] := by
  rw [breaches_of_traced h proper.traced, failureBreaches, if_neg]
  rintro ⟨hfail, hunnamed⟩
  rw [textField_map h.outcome, Option.map_eq_some_iff] at hfail
  rw [textField_map h.symbol, Option.map_eq_none_iff] at hunnamed
  obtain ⟨outcome, houtcome, hname⟩ := hfail
  rw [tellsApart_outcome.eq_of_name hname] at houtcome
  exact proper.named houtcome hunnamed

theorem ofJson?_eq_some (h : e.StandsIn j) (proper : e.Proper) : Entry.ofJson? j = some e := by
  have text {key : String} {o : Option String} (hget : j.get? key = o.map .text) :
      readOptional Json.text? j key = some o :=
    readOptional_map hget fun _ _ => ⟨rfl, Json.noConfusion⟩
  have name {α : Type} [Named α] (apart : TellsApart α) {key : String} {o : Option α}
      (hget : j.get? key = o.map nameJson) : readOptional readName j key = some o :=
    readOptional_map hget fun a _ => ⟨apart.readName a, Json.noConfusion⟩
  have errno : readOptional readErrno j "errno" = some e.errno :=
    readOptional_map h.errno fun n hn => ⟨readWhole_eq (proper.errno n hn), Json.noConfusion⟩
  have latency : readOptional readCount j "latency_ns" = some e.latencyNs :=
    readOptional_map h.latencyNs fun n hn =>
      ⟨readCount_ofNat (proper.latency n hn), Json.noConfusion⟩
  have duration : readOptional readCount j "duration_ms" = some e.durationMs :=
    readOptional_map h.durationMs fun n hn =>
      ⟨readCount_ofNat (proper.duration n hn), Json.noConfusion⟩
  have artifacts : readOptional readTexts j "artifact_refs" = some e.artifactRefs :=
    readOptional_map h.artifactRefs fun texts _ => ⟨readTexts_ofTexts texts, Json.noConfusion⟩
  have details : readOptional some j "details" = some e.details := by
    have hdetails : j.get? "details" = e.details.map id := by
      rw [Option.map_id_apply, h.details]
    exact readOptional_map hdetails fun d hd => ⟨rfl, (proper.details d hd).1⟩
  simp only [Entry.ofJson?, readField, h.timestamp, h.traceId, h.level, h.event,
    text h.campaign, text h.family, text h.symbol, name tellsApart_stream h.stream,
    name tellsApart_outcome h.outcome, errno, latency, duration, artifacts, details]
  simp [Json.text?, tellsApart_level.readName]

theorem plain_ofTexts {depth : Nat} (texts : List String) :
    Json.Plain (depth + 1) (.ofTexts texts) := by
  refine .list fun item hitem => ?_
  obtain ⟨s, -, rfl⟩ := List.mem_map.1 hitem
  exact .text s

theorem Entry.Fitting.plain_members (fitting : e.Fitting) :
    ∀ p ∈ e.members, Json.Plain (Json.Document.depthLimit - 1) p.2 := by
  have count {n : Nat} (hn : n ≤ countMax) : Json.InWord n := by
    rw [countMax] at hn
    constructor <;> omega
  simp only [Entry.members, List.forall_mem_append, forall_mem_optional, List.forall_mem_cons]
  refine ⟨⟨⟨⟨⟨⟨⟨⟨⟨⟨?_, ?_⟩, ?_⟩, ?_⟩, ?_⟩, ?_⟩, ?_⟩, ?_⟩, ?_⟩, ?_⟩, ?_⟩
  · exact ⟨.text _, .text _, .text _, .text _, fun _ h => nomatch h⟩
  · exact fun campaign _ => .text campaign
  · exact fun stream _ => .text _
  · exact fun family _ => .text family
  · exact fun symbol _ => .text symbol
  · exact fun outcome _ => .text _
  · intro n hn
    obtain ⟨hlow, hhigh⟩ := fitting.errno n hn
    refine .whole ⟨?_, ?_⟩ <;> omega
  · exact fun n hn => .whole (count (fitting.latency n hn))
  · exact fun n hn => .whole (count (fitting.duration n hn))
  · exact fun texts _ => plain_ofTexts texts
  · exact fun d hd => (fitting.details d hd).2

/-- The line of an entry is read as an object in which the fields of the entry stand. -/
theorem Entry.Fitting.read_line (fitting : e.Fitting) :
    ∃ found, Json.read e.line = .ok (.object found) ∧ e.StandsIn (.object found) := by
  obtain ⟨found, hread, hfound⟩ :=
    Json.read_compact_object fitting.plain_members e.members_distinct
  exact ⟨found, hread, e.standsIn hfound⟩

/-- The line of an entry is read as the entry. -/
theorem Entry.Proper.readLine_line (proper : e.Proper) : readLine e.line = .ok e := by
  obtain ⟨found, hread, hstands⟩ := proper.fitting.read_line
  simp only [readLine, hread, breaches_eq_nil hstands proper, ofJson?_eq_some hstands proper]

/-- An entry without a slip in any field. Its details may be as deep as they like. -/
structure Entry.Exact (e : Entry) : Prop where
  named : e.outcome = some .fail → e.symbol ≠ none
  errno : ∀ n, e.errno = some n → -2147483648 ≤ n ∧ n ≤ 2147483647
  latency : ∀ n, e.latencyNs = some n → n ≤ countMax
  duration : ∀ n, e.durationMs = some n → n ≤ countMax
  details : ∀ j, e.details = some j → j ≠ .null ∧ ∃ depth, j.Plain depth

theorem Entry.Exact.proper (exact : e.Exact) (traced : partCount e.traceId.toList = 3)
    (shallow : ∀ j, e.details = some j → j.Plain (Json.Document.depthLimit - 1)) : e.Proper where
  traced := traced
  named := exact.named
  errno := exact.errno
  latency := exact.latency
  duration := exact.duration
  details j hj := ⟨(exact.details j hj).1, shallow j hj⟩

theorem Entry.Exact.plain_members (exact : e.Exact) (traced : partCount e.traceId.toList = 3) :
    ∀ p ∈ e.members, ∃ depth, Json.Plain depth p.2 := by
  let others : Entry := { e with details := none }
  have hothers : others.Proper := by
    refine Exact.proper ?_ traced fun _ h => nomatch h
    exact ⟨exact.named, exact.errno, exact.latency, exact.duration, fun _ h => nomatch h⟩
  have hmembers : e.members = others.members ++ optional "details" id e.details := by
    simp [members, others, optional]
  rw [hmembers]
  intro p hp
  rcases List.mem_append.1 hp with hother | hdetails
  · exact ⟨_, hothers.fitting.plain_members p hother⟩
  · have hall := (forall_mem_optional "details" id e.details
      (P := fun p => ∃ depth, Json.Plain depth p.2)).2 fun j hj => (exact.details j hj).2
    exact hall p hdetails

/-- The line of an entry whose details are too deep is no JSON to its reader. -/
theorem Entry.Exact.readLine_deep (exact : e.Exact) (traced : partCount e.traceId.toList = 3)
    {j : Json} (hj : e.details = some j) (deep : ¬ j.Plain (Json.Document.depthLimit - 1)) :
    readLine e.line = .error [.notJson .malformed] := by
  have hmember : ("details", j) ∈ e.members := by
    simp [members, hj, optional]
  have hread := Json.read_compact_deep (exact.plain_members traced) ⟨_, hmember, deep⟩
  rw [readLine, Entry.line, e.toJson_eq, hread]

/-- The line of an entry without a slip is read as the entry just if its details are not too
deep. -/
theorem Entry.Exact.readLine_eq_iff (exact : e.Exact) (traced : partCount e.traceId.toList = 3) :
    readLine e.line = .ok e ↔
      ∀ j, e.details = some j → j.Plain (Json.Document.depthLimit - 1) := by
  constructor
  · intro hread j hj
    by_contra deep
    rw [exact.readLine_deep traced hj deep] at hread
    cases hread
  · intro shallow
    exact (exact.proper traced shallow).readLine_line

/-- The line of an entry is a single line. -/
theorem Entry.Proper.lineFeed_notMem (proper : e.Proper) : '\n' ∉ e.line.toList := by
  rw [Entry.line, e.toJson_eq, Json.compact, String.toList_ofList]
  exact Json.lineFeed_notMem_object fun p hp => (proper.fitting.plain_members p hp).lineFeed_notMem

end CText.Log
