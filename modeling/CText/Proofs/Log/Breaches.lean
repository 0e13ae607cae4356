import CText.Log.Contract
import Mathlib.Data.List.Infix
import Mathlib.Data.List.Nodup

/-!
# Every breach on a line is told once

The ways in which an object breaks the contract of a log are said without regard to how they are
looked for: a required field is absent, a text is not among the names of its field, a failure has no
text for its symbol, or the trace id does not fall into three parts at its double colons. What is told
of a line are just these, each once and with the number of the line.
-/

namespace CText.Log

/-! ## Parts between double colons -/

/-- A text falls into parts at its double colons, which are taken from the left: no part, not even
with the colon after it, has one of its own. -/
inductive FallsInto : List Char → List (List Char) → Prop
  | last {s : List Char} (whole : ¬ [':', ':'] <:+: s) : FallsInto s [s]
  | more {part rest : List Char} {parts : List (List Char)}
      (first : ¬ [':', ':'] <:+: part ++ [':']) (others : FallsInto rest parts) :
      FallsInto (part ++ ':' :: ':' :: rest) (part :: parts)

theorem doubleColon_infix_cons {c : Char} {s : List Char} :
    [':', ':'] <:+: c :: s ↔ (c = ':' ∧ [':'] <+: s) ∨ [':', ':'] <:+: s := by
  rw [List.infix_cons_iff, List.cons_prefix_cons, eq_comm]

/-- Whether a colon begins a text that has one further on is a matter of the text up to there. -/
theorem colon_prefix_append (part rest : List Char) :
    [':'] <+: part ++ ':' :: rest ↔ [':'] <+: part ++ [':'] := by
  cases part <;> simp [List.cons_prefix_cons]

theorem partCount_cons_of_single {c : Char} {s : List Char} (h : ¬ (c = ':' ∧ [':'] <+: s)) :
    partCount (c :: s) = partCount s := by
  rw [partCount]
  rintro rest rfl rfl
  exact h ⟨rfl, rest, rfl⟩

theorem partCount_of_whole {s : List Char} (h : ¬ [':', ':'] <:+: s) : partCount s = 1 := by
  induction s with
  | nil => rfl
  | cons c s ih =>
    rw [doubleColon_infix_cons, not_or] at h
    rw [partCount_cons_of_single h.1, ih h.2]

theorem partCount_of_first {part rest : List Char} (h : ¬ [':', ':'] <:+: part ++ [':']) :
    partCount (part ++ ':' :: ':' :: rest) = partCount rest + 1 := by
  induction part with
  | nil => rfl
  | cons c part ih =>
    rw [List.cons_append, doubleColon_infix_cons, not_or] at h
    rw [List.cons_append, partCount_cons_of_single, ih h.2]
    rintro ⟨rfl, hnext⟩
    exact h.1 ⟨rfl, (colon_prefix_append part _).1 hnext⟩

theorem FallsInto.partCount_eq {s : List Char} {parts : List (List Char)} (h : FallsInto s parts) :
    partCount s = parts.length := by
  induction h with
  | last whole => exact partCount_of_whole whole
  | more first others ih =>
    rw [partCount_of_first first, ih]
    rfl

/-- Every text falls into parts. -/
theorem exists_fallsInto (s : List Char) : ∃ parts, FallsInto s parts := by
  induction s using partCount.induct with
  | case1 rest ih =>
    obtain ⟨parts, hparts⟩ := ih
    have hfirst : ¬ [':', ':'] <:+: [] ++ [':'] := by decide
    exact ⟨[] :: parts, .more hfirst hparts⟩
  | case2 c rest hsingle ih =>
    have hc : ¬ (c = ':' ∧ [':'] <+: rest) := by
      rintro ⟨rfl, after, rfl⟩
      exact hsingle after rfl rfl
    obtain ⟨parts, hparts⟩ := ih
    cases hparts with
    | last whole =>
      refine ⟨_, .last ?_⟩
      rw [doubleColon_infix_cons, not_or]
      exact ⟨hc, whole⟩
    | @more part after parts first others =>
      have hfirst : ¬ [':', ':'] <:+: (c :: part) ++ [':'] := by
        rw [List.cons_append, doubleColon_infix_cons, not_or]
        refine ⟨?_, first⟩
        rintro ⟨rfl, hnext⟩
        exact hc ⟨rfl, (colon_prefix_append part _).2 hnext⟩
      exact ⟨(c :: part) :: parts, .more hfirst others⟩
  | case3 => exact ⟨_, .last (by decide)⟩

/-- A text has three parts by count just if it falls into three. -/
theorem partCount_eq_three_iff (s : List Char) :
    partCount s = 3 ↔ ∃ campaign run number, FallsInto s [campaign, run, number] := by
  constructor
  · intro h
    obtain ⟨parts, hparts⟩ := exists_fallsInto s
    rw [hparts.partCount_eq, List.length_eq_three] at h
    obtain ⟨campaign, run, number, rfl⟩ := h
    exact ⟨campaign, run, number, hparts⟩
  · rintro ⟨campaign, run, number, hparts⟩
    exact hparts.partCount_eq

/-! ## Breaches -/

/-- The ways in which an object breaks the contract, the shape of its fields apart. -/
inductive Breaks (j : Json) : Breach → Prop
  | missing {field : String} (required : field ∈ ["timestamp", "trace_id", "level", "event"])
      (absent : j.get? field = none) : Breaks j (.missing field)
  | level {value : String} (present : j.get? "level" = some (.text value))
      (unknown : ∀ level : Level, Named.name level ≠ value) :
      Breaks j (.unknownName "level" value (Named.names Level))
  | outcome {value : String} (present : j.get? "outcome" = some (.text value))
      (unknown : ∀ outcome : Outcome, Named.name outcome ≠ value) :
      Breaks j (.unknownName "outcome" value (Named.names Outcome))
  | stream {value : String} (present : j.get? "stream" = some (.text value))
      (unknown : ∀ stream : Stream, Named.name stream ≠ value) :
      Breaks j (.unknownName "stream" value (Named.names Stream))
  | unnamedFailure (failed : j.get? "outcome" = some (.text "fail"))
      (unnamed : ∀ symbol, j.get? "symbol" ≠ some (.text symbol)) : Breaks j .unnamedFailure
  | oddTraceId {traceId : String} (present : j.get? "trace_id" = some (.text traceId))
      (odd : ∀ campaign run number, ¬ FallsInto traceId.toList [campaign, run, number]) :
      Breaks j (.oddTraceId traceId)

/-- Objects that have the same under every key break the contract in the same ways. -/
theorem Breaks.of_get?_eq {i j : Json} {b : Breach} (h : Breaks i b)
    (same : ∀ key, i.get? key = j.get? key) : Breaks j b := by
  cases h with
  | missing required absent => exact .missing required (same _ ▸ absent)
  | level present unknown => exact .level (same _ ▸ present) unknown
  | outcome present unknown => exact .outcome (same _ ▸ present) unknown
  | stream present unknown => exact .stream (same _ ▸ present) unknown
  | unnamedFailure failed unnamed =>
    exact .unnamedFailure (same _ ▸ failed) fun symbol => same _ ▸ unnamed symbol
  | oddTraceId present odd => exact .oddTraceId (same _ ▸ present) odd

section

variable {j : Json}

theorem textField_eq_some_iff {field value : String} :
    textField j field = some value ↔ j.get? field = some (.text value) := by
  rw [textField, Option.bind_eq_some_iff]
  constructor
  · rintro ⟨v, hv, htext⟩
    cases v with
    | text s =>
      cases htext
      exact hv
    | _ => cases htext
  · intro h
    exact ⟨_, h, rfl⟩

theorem textField_eq_none_iff {field : String} :
    textField j field = none ↔ ∀ value, j.get? field ≠ some (.text value) := by
  rw [Option.eq_none_iff_forall_ne_some]
  exact forall_congr' fun value => not_congr textField_eq_some_iff

theorem mem_nameBreaches_iff (α : Type) [Named α] (j : Json) (field : String) (b : Breach)
    (all : ∀ a : α, a ∈ (Named.all : List α)) :
    b ∈ nameBreaches j field (Named.names α) ↔
      ∃ value, j.get? field = some (.text value) ∧ (∀ a : α, Named.name a ≠ value) ∧
        b = .unknownName field value (Named.names α) := by
  have hknown (value : String) :
      (Named.names α).contains value = true ↔ ∃ a : α, Named.name a = value := by
    simp [Named.names, all]
  constructor
  · intro h
    unfold nameBreaches at h
    split at h
    next value htext =>
      split_ifs at h with hcontains
      · cases h
      · rw [hknown, not_exists] at hcontains
        exact ⟨value, textField_eq_some_iff.1 htext, hcontains, List.mem_singleton.1 h⟩
    next => cases h
  · rintro ⟨value, hpresent, hunknown, rfl⟩
    have hnot : ¬ (Named.names α).contains value = true := by
      rw [hknown, not_exists]
      exact hunknown
    simp only [nameBreaches, textField_eq_some_iff.2 hpresent, if_neg hnot]
    exact List.mem_cons_self

theorem mem_failureBreaches_iff {b : Breach} :
    b ∈ failureBreaches j ↔ j.get? "outcome" = some (.text "fail") ∧
      (∀ symbol, j.get? "symbol" ≠ some (.text symbol)) ∧ b = .unnamedFailure := by
  rw [← textField_eq_some_iff, ← textField_eq_none_iff, failureBreaches]
  constructor
  · intro h
    split_ifs at h with hfailure
    · exact ⟨hfailure.1, hfailure.2, List.mem_singleton.1 h⟩
    · cases h
  · rintro ⟨hfailed, hunnamed, rfl⟩
    rw [if_pos ⟨hfailed, hunnamed⟩]
    exact List.mem_cons_self

theorem mem_traceIdBreaches_iff {b : Breach} :
    b ∈ traceIdBreaches j ↔ ∃ traceId, j.get? "trace_id" = some (.text traceId) ∧
      (∀ campaign run number, ¬ FallsInto traceId.toList [campaign, run, number]) ∧
      b = .oddTraceId traceId := by
  have hodd (traceId : String) : ¬ partCount traceId.toList = 3 ↔
      ∀ campaign run number, ¬ FallsInto traceId.toList [campaign, run, number] := by
    simp [partCount_eq_three_iff]
  constructor
  · intro h
    unfold traceIdBreaches at h
    split at h
    next traceId htext =>
      split_ifs at h with hthree
      · cases h
      · exact ⟨traceId, textField_eq_some_iff.1 htext, (hodd traceId).1 hthree,
          List.mem_singleton.1 h⟩
    next => cases h
  · rintro ⟨traceId, hpresent, hthree, rfl⟩
    simp only [traceIdBreaches, textField_eq_some_iff.2 hpresent, if_neg ((hodd traceId).2 hthree)]
    exact List.mem_cons_self

/-- The breaches that are looked for are the ways in which the object breaks the contract. -/
theorem mem_breaches_iff {b : Breach} : b ∈ breaches j ↔ Breaks j b := by
  have hmissing : b ∈ (requiredFields.filter fun field => (j.get? field).isNone).map .missing ↔
      ∃ field ∈ requiredFields, j.get? field = none ∧ b = .missing field := by
    simp only [List.mem_map, List.mem_filter, Option.isNone_iff_eq_none, and_assoc]
    simp only [eq_comm]
  have hlevel := mem_nameBreaches_iff Level j "level" b fun level => by cases level <;> decide
  have houtcome := mem_nameBreaches_iff Outcome j "outcome" b fun outcome => by
    cases outcome <;> decide
  have hstream := mem_nameBreaches_iff Stream j "stream" b fun stream => by
    cases stream <;> decide
  simp only [breaches, List.mem_append, hmissing, hlevel, houtcome, hstream,
    mem_failureBreaches_iff, mem_traceIdBreaches_iff]
  constructor
  · rintro (((((⟨field, hrequired, habsent, rfl⟩ | ⟨value, hpresent, hunknown, rfl⟩) |
      ⟨value, hpresent, hunknown, rfl⟩) | ⟨value, hpresent, hunknown, rfl⟩) |
      ⟨hfailed, hunnamed, rfl⟩) | ⟨traceId, hpresent, hodd, rfl⟩)
    · exact .missing hrequired habsent
    · exact .level hpresent hunknown
    · exact .outcome hpresent hunknown
    · exact .stream hpresent hunknown
    · exact .unnamedFailure hfailed hunnamed
    · exact .oddTraceId hpresent hodd
  · rintro (⟨hrequired, habsent⟩ | ⟨hpresent, hunknown⟩ | ⟨hpresent, hunknown⟩ |
      ⟨hpresent, hunknown⟩ | ⟨hfailed, hunnamed⟩ | ⟨hpresent, hodd⟩)
    · exact .inl (.inl (.inl (.inl (.inl ⟨_, hrequired, habsent, rfl⟩))))
    · exact .inl (.inl (.inl (.inl (.inr ⟨_, hpresent, hunknown, rfl⟩))))
    · exact .inl (.inl (.inl (.inr ⟨_, hpresent, hunknown, rfl⟩)))
    · exact .inl (.inl (.inr ⟨_, hpresent, hunknown, rfl⟩))
    · exact .inl (.inr ⟨hfailed, hunnamed, rfl⟩)
    · exact .inr ⟨_, hpresent, hodd, rfl⟩

/-! ## Once each -/

theorem nameBreaches_sublist (field : String) (allowed : List String) :
    (nameBreaches j field allowed).Sublist
      [.unknownName field ((textField j field).getD "") allowed] := by
  rw [nameBreaches]
  cases textField j field with
  | none => exact List.nil_sublist _
  | some value =>
    dsimp only
    split_ifs
    · exact List.nil_sublist _
    · exact List.Sublist.refl _

theorem failureBreaches_sublist : (failureBreaches j).Sublist [.unnamedFailure] := by
  unfold failureBreaches
  split_ifs
  · exact List.Sublist.refl _
  · exact List.nil_sublist _

theorem traceIdBreaches_sublist :
    (traceIdBreaches j).Sublist [.oddTraceId ((textField j "trace_id").getD "")] := by
  rw [traceIdBreaches]
  cases textField j "trace_id" with
  | none => exact List.nil_sublist _
  | some traceId =>
    dsimp only
    split_ifs
    · exact List.nil_sublist _
    · exact List.Sublist.refl _

/-- No breach is told twice. -/
theorem nodup_breaches (j : Json) : (breaches j).Nodup := by
  -- The breaches are some of those that a line could have with the texts that stand in it.
  have hsome : (breaches j).Sublist (requiredFields.map .missing ++
      [.unknownName "level" ((textField j "level").getD "") (Named.names Level)] ++
      [.unknownName "outcome" ((textField j "outcome").getD "") (Named.names Outcome)] ++
      [.unknownName "stream" ((textField j "stream").getD "") (Named.names Stream)] ++
      [.unnamedFailure] ++ [.oddTraceId ((textField j "trace_id").getD "")]) := by
    have hmissing : (requiredFields.filter fun field => (j.get? field).isNone).Sublist
        requiredFields := List.filter_sublist
    exact (((((hmissing.map .missing).append (nameBreaches_sublist _ _)).append
      (nameBreaches_sublist _ _)).append (nameBreaches_sublist _ _)).append
      failureBreaches_sublist).append traceIdBreaches_sublist
  refine hsome.nodup ?_
  simp [requiredFields]

end

/-! ## Findings -/

theorem breaches_eq_nil_iff {j : Json} : breaches j = [] ↔ ∀ b, ¬ Breaks j b := by
  simp only [List.eq_nil_iff_forall_not_mem, mem_breaches_iff]

section

variable {line : String} {members : List (String × Json)}

/-- What becomes of a line with an object: it is accepted, or only a field has the wrong shape, or
the breaches are told. -/
theorem readLine_cases (h : Json.read line = .ok (.object members)) :
    (∃ e, readLine line = .ok e ∧ breaches (.object members) = [] ∧
      Entry.ofJson? (.object members) = some e) ∨
    (readLine line = .error [.misshapen] ∧ breaches (.object members) = [] ∧
      Entry.ofJson? (.object members) = none) ∨
    (readLine line = .error (breaches (.object members)) ∧ breaches (.object members) ≠ []) := by
  simp only [readLine, h]
  cases hbreaches : breaches (.object members) with
  | nil =>
    cases hentry : Entry.ofJson? (.object members) with
    | none => exact .inr (.inl ⟨rfl, rfl, rfl⟩)
    | some e => exact .inl ⟨e, rfl, rfl, rfl⟩
  | cons b others => exact .inr (.inr ⟨rfl, List.cons_ne_nil _ _⟩)

/-- Only an object is accepted. -/
theorem exists_object_of_readLine {e : Entry} (h : readLine line = .ok e) :
    ∃ members, Json.read line = .ok (.object members) := by
  unfold readLine at h
  split at h
  next => cases h
  next members hread => exact ⟨members, hread⟩
  next => cases h

/-- The object on a line that is accepted breaks nothing and stands for the entry. -/
theorem clean_of_readLine {e : Entry} (h : Json.read line = .ok (.object members))
    (hline : readLine line = .ok e) :
    (∀ b, ¬ Breaks (.object members) b) ∧ Entry.ofJson? (.object members) = some e := by
  rcases readLine_cases h with ⟨e', hline', hbreaches, hentry⟩ | ⟨hline', -, -⟩ | ⟨hline', -⟩
  · rw [hline] at hline'
    cases hline'
    exact ⟨breaches_eq_nil_iff.1 hbreaches, hentry⟩
  · rw [hline] at hline'
    cases hline'
  · rw [hline] at hline'
    cases hline'

/-- What is found on a line with an object are the ways in which the object breaks the contract,
with the number of the line, and else that a field has the wrong shape if no entry is read. -/
theorem mem_findings_iff (h : Json.read line = .ok (.object members)) (n : Nat) (f : Finding) :
    f ∈ findings n line ↔ f.line = n ∧ (Breaks (.object members) f.breach ∨
      f.breach = .misshapen ∧ (∀ b, ¬ Breaks (.object members) b) ∧
        Entry.ofJson? (.object members) = none) := by
  obtain ⟨number, breach⟩ := f
  rw [← breaches_eq_nil_iff, ← mem_breaches_iff]
  rcases readLine_cases h with ⟨e, hline, hbreaches, hentry⟩ | ⟨hline, hbreaches, hentry⟩ |
    ⟨hline, hbreaches⟩
  · simp [findings, hline, hbreaches, hentry]
  · simp [findings, hline, hbreaches, hentry, eq_comm]
  · simp [findings, hline, hbreaches, eq_comm, and_comm]

/-- Nothing is found twice on a line with an object. -/
theorem nodup_findings (h : Json.read line = .ok (.object members)) (n : Nat) :
    (findings n line).Nodup := by
  have hnumbered {found : List Breach} (hfound : found.Nodup) :
      (found.map (Finding.mk n)).Nodup := by
    refine hfound.map ?_
    rintro b b' ⟨⟩
    rfl
  rw [findings]
  rcases readLine_cases h with ⟨e, hline, -, -⟩ | ⟨hline, -, -⟩ | ⟨hline, -⟩
  · simp [hline]
  · simp [hline]
  · rw [hline]
    exact hnumbered (nodup_breaches _)

end

end CText.Log
