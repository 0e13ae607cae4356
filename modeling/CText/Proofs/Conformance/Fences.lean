import CText.Proofs.Conformance.Pages

/-!
# Blocks of code on a page

On the page of a report, the difference of each failure stands in a block of code between two
fences. The difference of outputs ends with a line feed, so that the closing fence has a line of its
own. A note on error numbers does not, and its block is never closed: whatever follows on the page
is part of it, up to the end of the next block.
-/

namespace CText.Conformance

open Text

/-! ## Reading a page -/

/-- Whether a line opens a block of code, if none is open. -/
def isFence (line : List Char) : Bool := closingFence.isPrefixOf line

def isHeading (line : List Char) : Bool := "### ".toList.isPrefixOf line

/-- Whether a block of code is open behind a line, given whether one is in front of it. -/
def openBehind (isOpen : Bool) (line : List Char) : Bool :=
  if isOpen then line != closingFence else isFence line

/-- No heading stands in a block of code, and none is open at the end. -/
def Balanced (isOpen : Bool) : List (List Char) → Prop
  | [] => isOpen = false
  | line :: rest =>
    (isHeading line = true → isOpen = false) ∧ Balanced (openBehind isOpen line) rest

/-- The headings on a page, each with the lines up to the next one. -/
def sections : List (List Char) → List (List Char × List (List Char))
  | [] => []
  | line :: rest =>
    if isHeading line then (line, rest.takeWhile (!isHeading ·)) :: sections rest
    else sections rest

/-- Lines with one block of code that is opened for a difference and is closed. -/
def Fenced (under : List (List Char)) : Prop :=
  ∃ before body after, under = before ++ openingFence :: (body ++ closingFence :: after) ∧
    ∀ line ∈ before ++ body ++ after, isFence line = false

/-- A line that is neither a heading nor a fence. -/
def Quiet (line : List Char) : Prop := isHeading line = false ∧ isFence line = false

section

variable {isOpen : Bool} {line : List Char} {lines rest : List (List Char)}

theorem openBehind_quiet (h : Quiet line) : openBehind isOpen line = isOpen := by
  cases isOpen with
  | false => exact h.2
  | true =>
    refine bne_iff_ne.2 ?_
    rintro rfl
    exact absurd h.2 (by decide)

theorem balanced_quiet (h : ∀ line ∈ lines, Quiet line) :
    Balanced isOpen (lines ++ rest) ↔ Balanced isOpen rest := by
  induction lines with
  | nil => rfl
  | cons line lines ih =>
    rw [List.forall_mem_cons] at h
    have hheading : isHeading line = true → isOpen = false := by simp [h.1.1]
    rw [List.cons_append, Balanced, openBehind_quiet h.1, ih h.2]
    exact and_iff_right hheading

theorem balanced_heading (h : isHeading line = true) (hfence : isFence line = false) :
    Balanced isOpen (line :: rest) ↔ isOpen = false ∧ Balanced isOpen rest := by
  cases isOpen with
  | false => simp [Balanced, openBehind, hfence]
  | true => simp [Balanced, h]

theorem balanced_opening : Balanced false (openingFence :: rest) ↔ Balanced true rest := by
  rw [Balanced]
  exact and_iff_right fun _ => rfl

theorem balanced_closing : Balanced true (closingFence :: rest) ↔ Balanced false rest := by
  rw [Balanced]
  exact and_iff_right fun h => absurd h (by decide)

theorem sections_quiet (h : ∀ line ∈ lines, isHeading line = false) :
    sections (lines ++ rest) = sections rest := by
  induction lines with
  | nil => rfl
  | cons line lines ih =>
    rw [List.forall_mem_cons] at h
    rw [List.cons_append, sections, if_neg (by simp [h.1]), ih h.2]

end

/-! ## Quiet lines -/

theorem quiet_nil : Quiet [] := ⟨rfl, rfl⟩

/-- Headings begin with a hash and fences with a backtick. -/
theorem quiet_cons {c : Char} (hhash : c ≠ '#') (htick : c ≠ '`') (rest : List Char) :
    Quiet (c :: rest) := by
  constructor
  · simp [isHeading, List.isPrefixOf, hhash.symm]
  · simp [isFence, closingFence, List.isPrefixOf, htick.symm]

theorem quiet_title (title : List Char) : Quiet ("# ".toList ++ title) := ⟨rfl, rfl⟩

theorem quiet_tableLines {α : Type} {head : List String} {rule : String} {items : List α}
    {cells : α → List String} (hrule : Quiet rule.toList) :
    ∀ line ∈ tableLines head rule items cells, Quiet line := by
  have hrow (cells : List String) : Quiet (rowLine cells) :=
    quiet_cons (by decide) (by decide) _
  simp only [tableLines, List.forall_mem_cons, List.forall_mem_map]
  exact ⟨hrow head, hrule, fun a _ => hrow (cells a)⟩

theorem quiet_countLines (r : Report) : ∀ line ∈ countLines r, Quiet line := by
  have hcount (rest : List Char) : Quiet ('-' :: rest) := quiet_cons (by decide) (by decide) rest
  simp only [countLines, List.forall_mem_cons]
  exact ⟨quiet_title _, quiet_nil, hcount _, hcount _, hcount _, hcount _, quiet_nil,
    List.forall_mem_nil _⟩

theorem quiet_topLines (r : Report) : ∀ line ∈ topLines r, Quiet line := by
  simp only [topLines, List.forall_mem_append]
  exact ⟨⟨⟨quiet_countLines r, quiet_tableLines ⟨by decide, by decide⟩⟩,
    List.forall_mem_singleton.2 quiet_nil⟩, quiet_tableLines ⟨by decide, by decide⟩⟩

theorem quiet_noteOf (v : Verdict) (rest : List Char) : Quiet (noteOf v ++ rest) := by
  rw [noteOf_eq]
  exact quiet_cons (by decide) (by decide) _

theorem quiet_errnoLines (v : Verdict) : ∀ line ∈ errnoLines v, Quiet line := by
  rw [errnoLines]
  split
  · simp
  · have hnote := quiet_noteOf v []
    rw [List.append_nil] at hnote
    simp [hnote, quiet_nil]

theorem quiet_diffLines (expected actual : String) :
    ∀ line ∈ diffLines expected actual, Quiet line := by
  have hhead : ∀ line ∈ headLines, Quiet line := by
    simp only [headLines, List.forall_mem_cons]
    exact ⟨quiet_cons (by decide) (by decide) _, quiet_cons (by decide) (by decide) _,
      List.forall_mem_nil _⟩
  have hhunk (i : Nat) : ∀ line ∈ hunk expected actual i, Quiet line := by
    simp only [hunk, List.forall_mem_cons]
    exact ⟨quiet_cons (by decide) (by decide) _, quiet_cons (by decide) (by decide) _,
      quiet_cons (by decide) (by decide) _, List.forall_mem_nil _⟩
  simp only [diffLines, List.forall_mem_append, List.forall_mem_flatMap]
  exact ⟨hhead, fun i _ => hhunk i⟩

/-! ## Sections of a page -/

/-- The lines from the heading of a failure to that of the next one, or to the end of the page. -/
def sectionLines (v : Verdict) : List (List Char) := headingLine v :: (underLines v ++ [[]])

/-- The empty line in front of each part of a text can as well be taken for one behind the part in
front of it. -/
theorem flatMap_cons_append {α β : Type} (b : β) (f : α → List β) (l : List α) :
    (l.flatMap fun a => b :: f a) ++ [b] = b :: l.flatMap fun a => f a ++ [b] := by
  induction l with
  | nil => rfl
  | cons a l ih => simp [ih]

/-- A page consists of quiet lines and of a section for each failure. -/
theorem exists_cut_markdown {r : Report} (single : SingleLined r)
    (h : ∀ v ∈ r.summary.failures, Failing v) : ∃ front, (∀ line ∈ front, Quiet line) ∧
      cut r.markdown = front ++ r.summary.failures.flatMap sectionLines := by
  rw [single.cut_markdown h, failureLines]
  split
  next hnone =>
    refine ⟨topLines r ++ [[]], ?_, by simp [hnone]⟩
    exact List.forall_mem_append.2 ⟨quiet_topLines r, List.forall_mem_singleton.2 quiet_nil⟩
  next =>
    refine ⟨topLines r ++ [[], "## Failures".toList, []], ?_, ?_⟩
    · simp only [List.forall_mem_append, List.forall_mem_cons]
      exact ⟨quiet_topLines r, quiet_nil, ⟨by decide, by decide⟩, quiet_nil,
        List.forall_mem_nil _⟩
    · have hshift := flatMap_cons_append [] (fun v => headingLine v :: underLines v)
        r.summary.failures
      simp only [List.append_assoc, hshift]
      rfl

theorem isHeading_headingLine (v : Verdict) : isHeading (headingLine v) = true := rfl

theorem isFence_headingLine (v : Verdict) : isFence (headingLine v) = false := rfl

/-- No heading stands under another one. -/
theorem isHeading_underLines (v : Verdict) :
    ∀ line ∈ underLines v ++ [[]], isHeading line = false := by
  have hblock : ∀ line ∈ blockLines v, isHeading line = false := by
    rw [blockLines]
    split
    · simp only [List.forall_mem_cons]
      exact ⟨rfl, (quiet_noteOf v closingFence).1, List.forall_mem_nil _⟩
    · simp only [List.forall_mem_cons, List.forall_mem_append]
      exact ⟨rfl, fun line h => (quiet_diffLines _ _ line h).1, rfl, List.forall_mem_nil _⟩
  simp only [underLines, List.forall_mem_append, List.forall_mem_cons]
  exact ⟨⟨rfl, fun line h => (quiet_errnoLines v line h).1, hblock⟩, rfl, List.forall_mem_nil _⟩

theorem takeWhile_under {v : Verdict} {rest : List (List Char)}
    (hrest : ∀ line ∈ rest.head?, isHeading line = true) :
    (underLines v ++ [[]] ++ rest).takeWhile (!isHeading ·) = underLines v ++ [[]] := by
  have hunder : ∀ line ∈ underLines v ++ [[]], (!isHeading line) = true := fun line h => by
    rw [isHeading_underLines v line h]
    rfl
  rw [List.takeWhile_append_of_pos hunder]
  cases rest with
  | nil => exact List.append_nil _
  | cons line rest => simp [hrest line rfl]

theorem head?_flatMap_sectionLines (failures : List Verdict) :
    ∀ line ∈ (failures.flatMap sectionLines).head?, isHeading line = true := by
  cases failures with
  | nil => simp
  | cons v failures =>
    rintro line ⟨⟩
    rfl

theorem sections_flatMap (failures : List Verdict) :
    sections (failures.flatMap sectionLines) =
      failures.map fun v => (headingLine v, underLines v ++ [[]]) := by
  induction failures with
  | nil => rfl
  | cons v failures ih =>
    have hunder := takeWhile_under (v := v) (head?_flatMap_sectionLines failures)
    rw [List.flatMap_cons, sectionLines, List.cons_append, sections,
      if_pos (isHeading_headingLine v), hunder, sections_quiet (isHeading_underLines v), ih]
    rfl

theorem openingFence_mem (v : Verdict) : openingFence ∈ underLines v ++ [[]] := by
  have hblock : openingFence ∈ blockLines v := by
    rw [blockLines]
    split <;> exact List.mem_cons_self
  simp [underLines, hblock]

theorem Quiet.ne_closingFence {line : List Char} (h : Quiet line) : line ≠ closingFence := by
  rintro rfl
  exact absurd h.2 (by decide)

/-- The closing fence behind a note has no line of its own. -/
theorem closingFence_notMem {v : Verdict} (h : v.actual = v.expected) :
    closingFence ∉ underLines v ++ [[]] := by
  have hother : ∀ line ∈ underLines v ++ [[]], line ≠ closingFence := by
    simp only [underLines, blockLines, if_pos h, List.forall_mem_append, List.forall_mem_cons]
    exact ⟨⟨by decide, fun line hline => (quiet_errnoLines v line hline).ne_closingFence,
      by decide, (quiet_noteOf v closingFence).ne_closingFence, List.forall_mem_nil _⟩,
      by decide, List.forall_mem_nil _⟩
  exact fun hmem => hother _ hmem rfl

/-- The block of a failure is closed just if the outputs are different. -/
theorem fenced_iff (v : Verdict) : Fenced (underLines v ++ [[]]) ↔ v.actual ≠ v.expected := by
  constructor
  · rintro ⟨before, body, after, hlines, -⟩ hsame
    refine closingFence_notMem hsame ?_
    rw [hlines]
    simp
  · intro hdiffer
    refine ⟨[] :: errnoLines v, diffLines v.expected v.actual, [[]], ?_, ?_⟩
    · simp [underLines, blockLines, hdiffer]
    · simp only [List.forall_mem_append, List.forall_mem_cons]
      exact ⟨⟨⟨rfl, fun line h => (quiet_errnoLines v line h).2⟩,
        fun line h => (quiet_diffLines _ _ line h).2⟩, rfl, List.forall_mem_nil _⟩

/-- Up to its block, a section leaves things as they are. -/
theorem balanced_section (v : Verdict) (rest : List (List Char)) :
    Balanced false (sectionLines v ++ rest) ↔ Balanced false (blockLines v ++ ([] :: rest)) := by
  have hfront : ∀ line ∈ [] :: errnoLines v, Quiet line :=
    List.forall_mem_cons.2 ⟨quiet_nil, quiet_errnoLines v⟩
  have hlines : sectionLines v ++ rest =
      headingLine v :: (([] :: errnoLines v) ++ (blockLines v ++ ([] :: rest))) := by
    simp [sectionLines, underLines]
  rw [hlines, balanced_heading (isHeading_headingLine v) (isFence_headingLine v),
    balanced_quiet hfront]
  exact and_iff_right rfl

theorem balanced_nil_cons {isOpen : Bool} {rest : List (List Char)} :
    Balanced isOpen ([] :: rest) ↔ Balanced isOpen rest := by
  have hempty : ∀ line ∈ [([] : List Char)], Quiet line := List.forall_mem_singleton.2 quiet_nil
  exact balanced_quiet hempty

theorem balanced_section_of_ne {v : Verdict} (h : v.actual ≠ v.expected)
    (rest : List (List Char)) : Balanced false (sectionLines v ++ rest) ↔ Balanced false rest := by
  rw [balanced_section, blockLines, if_neg h, List.cons_append, balanced_opening,
    List.append_assoc, balanced_quiet (quiet_diffLines _ _), List.singleton_append,
    balanced_closing, balanced_nil_cons]

theorem balanced_section_of_eq {v : Verdict} (h : v.actual = v.expected)
    (rest : List (List Char)) : Balanced false (sectionLines v ++ rest) ↔ Balanced true rest := by
  have hnote : ∀ line ∈ [noteOf v ++ closingFence], Quiet line :=
    List.forall_mem_singleton.2 (quiet_noteOf v _)
  rw [balanced_section, blockLines, if_pos h, List.cons_append, balanced_opening,
    balanced_quiet hnote, balanced_nil_cons]

/-- A block that is not closed swallows the next heading, or the end of the page. -/
theorem not_balanced_flatMap (failures : List Verdict) :
    ¬Balanced true (failures.flatMap sectionLines) := by
  cases failures with
  | nil => exact nofun
  | cons v failures =>
    rw [List.flatMap_cons, sectionLines, List.cons_append,
      balanced_heading (isHeading_headingLine v) (isFence_headingLine v)]
    exact fun h => nomatch h.1

theorem balanced_flatMap_iff (failures : List Verdict) :
    Balanced false (failures.flatMap sectionLines) ↔ ∀ v ∈ failures, v.actual ≠ v.expected := by
  induction failures with
  | nil => simp [Balanced]
  | cons v failures ih =>
    rw [List.flatMap_cons, List.forall_mem_cons]
    by_cases h : v.actual = v.expected
    · rw [balanced_section_of_eq h]
      exact iff_of_false (not_balanced_flatMap failures) fun hall => hall.1 h
    · rw [balanced_section_of_ne h, ih]
      exact (and_iff_right h).symm

/-- Every failure of a report is one on a case. -/
theorem failing_of_made {r : Report}
    (made : ∀ v ∈ r.summary.verdicts, ∃ family c, Verdict.ofCase family c = .ok v) :
    ∀ v ∈ r.summary.failures, Failing v := by
  intro v hv
  obtain ⟨hverdict, hfailed⟩ := List.mem_filter.1 hv
  obtain ⟨family, c, hmade⟩ := made v hverdict
  exact failing_of_ofCase hmade (Bool.not_eq_true' _ ▸ hfailed)

theorem sections_markdown {r : Report} (single : SingleLined r)
    (failing : ∀ v ∈ r.summary.failures, Failing v) : sections (cut r.markdown) =
      r.summary.failures.map fun v => (headingLine v, underLines v ++ [[]]) := by
  obtain ⟨front, hquiet, hpage⟩ := exists_cut_markdown single failing
  rw [hpage, sections_quiet fun line h => (hquiet line h).1, sections_flatMap]

theorem balanced_markdown_iff {r : Report} (single : SingleLined r)
    (failing : ∀ v ∈ r.summary.failures, Failing v) :
    Balanced false (cut r.markdown) ↔ ∀ v ∈ r.summary.failures, v.actual ≠ v.expected := by
  obtain ⟨front, hquiet, hpage⟩ := exists_cut_markdown single failing
  rw [hpage, balanced_quiet hquiet, balanced_flatMap_iff]

/-- On a page without line breaks in its names, the headings of failures are those of the cases that
failed, in their order, and under each a block of code is opened for a difference. It is closed in
front of the next heading just if the outputs are different. No heading stands in a block, and none
is open at the end, just if that is so for all failures. -/
theorem fences_balanced_iff {r : Report} (single : SingleLined r)
    (made : ∀ v ∈ r.summary.verdicts, ∃ family c, Verdict.ofCase family c = .ok v) :
    List.Forall₂ (fun v s => s.1 = headingLine v ∧ v.diff ≠ none ∧ openingFence ∈ s.2 ∧
        (Fenced s.2 ↔ v.actual ≠ v.expected)) r.summary.failures (sections (cut r.markdown)) ∧
      (Balanced false (cut r.markdown) ↔ ∀ v ∈ r.summary.failures, v.actual ≠ v.expected) := by
  have failing := failing_of_made made
  refine ⟨?_, balanced_markdown_iff single failing⟩
  rw [sections_markdown single failing, List.forall₂_map_right_iff, List.forall₂_same]
  intro v hv
  exact ⟨rfl, (failing v hv).diff_eq ▸ Option.some_ne_none _, openingFence_mem v, fenced_iff v⟩

def lengthCase (name output : String) (errno : Int) : FixtureCase :=
  ⟨name, "strlen", "", .object [("s", .text "a")], output, errno⟩

def lengthVerdict (name output : String) (errno : Int) : Verdict :=
  .ofOutcome "string" (lengthCase name output errno) (.ok "1")

theorem ofCase_lengthCase (name output : String) (errno : Int) :
    Verdict.ofCase "string" (lengthCase name output errno) =
      .ok (lengthVerdict name output errno) := rfl

def pairReport (first second : Verdict) : Report := ⟨"Nightly", "2024-01-01", ⟨[first, second]⟩⟩

theorem failures_pairReport {first second : Verdict} (hfirst : first.passed = false)
    (hsecond : second.passed = false) :
    (pairReport first second).summary.failures = [first, second] := by
  simp [pairReport, Summary.failures, hfirst, hsecond]

theorem fences_balanced_outputs :
    let first := lengthVerdict "short" "0" 0
    let second := lengthVerdict "long" "2" 5
    let r := pairReport first second
    SingleLined r ∧ (∀ v ∈ r.summary.verdicts, ∃ family c, Verdict.ofCase family c = .ok v) ∧
      (∃ under others, sections (cut r.markdown) = (headingLine first, under) :: others ∧
        Fenced under) ∧ Balanced false (cut r.markdown) := by
  intro first second r
  have single : SingleLined r := ⟨by decide, by decide, by decide, by decide, by decide⟩
  have made : ∀ v ∈ r.summary.verdicts, ∃ family c, Verdict.ofCase family c = .ok v := by
    simp only [r, pairReport, List.forall_mem_cons]
    exact ⟨⟨_, _, ofCase_lengthCase _ _ _⟩, ⟨_, _, ofCase_lengthCase _ _ _⟩,
      List.forall_mem_nil _⟩
  have hfailures : r.summary.failures = [first, second] := failures_pairReport rfl rfl
  have hfirst : first.actual ≠ first.expected := by decide
  obtain ⟨hsections, hbalanced⟩ := fences_balanced_iff single made
  rw [hfailures] at hsections hbalanced
  refine ⟨single, made, ?_, ?_⟩
  · obtain ⟨⟨_, under⟩, others, ⟨rfl, -, -, hfenced⟩, -, hpage⟩ :=
      List.forall₂_cons_left_iff.1 hsections
    exact ⟨under, others, hpage, hfenced.2 hfirst⟩
  · rw [hbalanced, List.forall_mem_cons, List.forall_mem_singleton]
    exact ⟨hfirst, by decide⟩

/-- The block with the note of a failure stays open, and the next heading stands in it. -/
theorem block_unclosed :
    let first := lengthVerdict "errno" "1" 5
    let second := lengthVerdict "output" "2" 0
    let page := (pairReport first second).markdown
    Verdict.ofCase "string" (lengthCase "errno" "1" 5) = .ok first ∧
      Verdict.ofCase "string" (lengthCase "output" "2" 0) = .ok second ∧
      (∃ under rest, sections (cut page) = (headingLine first, under) :: rest ∧
        openingFence ∈ under ∧ closingFence ∉ under) ∧
      ¬Balanced false (cut page) := by
  intro first second page
  have hfailures : (pairReport first second).summary.failures = [first, second] :=
    failures_pairReport rfl rfl
  have single : SingleLined (pairReport first second) :=
    ⟨by decide, by decide, by decide, by decide, by decide⟩
  have failing : ∀ v ∈ (pairReport first second).summary.failures, Failing v := by
    rw [hfailures]
    simp only [List.forall_mem_cons]
    exact ⟨failing_of_ofCase (ofCase_lengthCase _ _ _) rfl,
      failing_of_ofCase (ofCase_lengthCase _ _ _) rfl, List.forall_mem_nil _⟩
  have hsections : sections (cut page) = [(headingLine first, underLines first ++ [[]]),
      (headingLine second, underLines second ++ [[]])] := by
    rw [sections_markdown single failing, hfailures]
    rfl
  refine ⟨rfl, rfl, ⟨_, _, hsections, openingFence_mem first, closingFence_notMem rfl⟩, ?_⟩
  rw [balanced_markdown_iff single failing, hfailures]
  exact fun h => h first List.mem_cons_self rfl

end CText.Conformance
