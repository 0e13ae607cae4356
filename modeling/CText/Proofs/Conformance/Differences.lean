import CText.Conformance.Diff
import CText.Proofs.Json.Scalars
import CText.Proofs.Text.Written

/-!
# What a difference shows

The difference of two texts consists of two head lines and one hunk for each position at which the
texts, filled up with empty lines, have different lines. So a line that only one text has goes
unshown if it is empty, and texts that differ in nothing but the ends of their lines have a
difference without hunks. In all other cases every difference is shown.
-/

namespace CText.Conformance

open Text

/-- The line of a text at a position, counted from one, if the text goes that far. -/
def lineAt? (text : String) : (position : Nat) → Option (List Char)
  | 0 => none
  | i + 1 => (lines text.toList)[i]?

/-- What is shown of a text at a position: its line there, or an empty one. -/
def shownAt (text : String) (position : Nat) : List Char := (lineAt? text position).getD []

def positionLine (position : Nat) : List Char :=
  "@@ line ".toList ++ (toString position).toList ++ " @@".toList

/-- The lines that show what two texts have at a position. -/
def hunk (expected actual : String) (position : Nat) : List (List Char) :=
  [positionLine position, '-' :: shownAt expected position, '+' :: shownAt actual position]

/-- The lines in front of all hunks. -/
def headLines : List (List Char) := ["--- expected".toList, "+++ actual".toList]

def Shows (expected actual : String) (position : Nat) : Prop :=
  hunk expected actual position <:+: cut (diff expected actual)

/-- Texts of which a difference is not shown: all their lines are the same, or one of them goes
further than the other with a line that is empty. -/
def HidesDifference (expected actual : String) : Prop :=
  lines expected.toList = lines actual.toList ∨
    ∃ i, lineAt? expected i = some [] ∧ lineAt? actual i = none ∨
      lineAt? expected i = none ∧ lineAt? actual i = some []

/-! ## Changes by position -/

/-- The positions, in their order, at which two texts are shown to be different. -/
def shownPositions (expected actual : String) : List Nat :=
  (List.range' 1 (max (lines expected.toList).length (lines actual.toList).length)).filter
    fun i => shownAt expected i ≠ shownAt actual i

def diffLines (expected actual : String) : List (List Char) :=
  headLines ++ (shownPositions expected actual).flatMap (hunk expected actual)

/-- A function that has the given lines from a position on, and empty ones behind them. -/
def Fills (n : Nat) (ls : List (List Char)) (f : Nat → List Char) : Prop :=
  ∀ k, f (n + k) = ls[k]?.getD []

namespace Fills

variable {n : Nat} {line : List Char} {ls : List (List Char)} {f : Nat → List Char}

theorem head (h : Fills n (line :: ls) f) : f n = line := h 0

theorem tail (h : Fills n (line :: ls) f) : Fills (n + 1) ls f := by
  intro k
  rw [Nat.add_assoc, Nat.add_comm 1 k, h]
  rfl

theorem head_nil (h : Fills n [] f) : f n = [] := h 0

theorem tail_nil (h : Fills n [] f) : Fills (n + 1) [] f := by
  intro k
  rw [Nat.add_assoc, h]
  rfl

end Fills

theorem fills_shownAt (text : String) : Fills 1 (lines text.toList) (shownAt text) := by
  intro k
  rw [Nat.add_comm]
  rfl

/-- The changes at those of some positions at which two functions differ. -/
def changesAt (f g : Nat → List Char) (positions : List Nat) : List Change :=
  (positions.filter fun i => f i ≠ g i).map fun i => ⟨i, f i, g i⟩

theorem changesAt_cons (f g : Nat → List Char) (n : Nat) (positions : List Nat) :
    changesAt f g (n :: positions) = changeAt n (f n) (g n) ++ changesAt f g positions := by
  by_cases h : f n = g n <;> simp [changesAt, changeAt, h]

/-- The changes between lists of lines are found by looking at each position up to the end of the
longer list. -/
theorem changesFrom_eq {n : Nat} {es as : List (List Char)} {f g : Nat → List Char}
    (hf : Fills n es f) (hg : Fills n as g) :
    changesFrom n es as = changesAt f g (List.range' n (max es.length as.length)) := by
  fun_induction changesFrom n es as with
  | case1 n => rfl
  | case2 n e es ih =>
    rw [ih hf.tail hg.tail_nil, List.length_cons, List.length_nil, Nat.max_zero, Nat.max_zero,
      List.range'_succ, changesAt_cons, hf.head, hg.head_nil]
  | case3 n a as ih =>
    rw [ih hf.tail_nil hg.tail, List.length_cons, List.length_nil, Nat.zero_max, Nat.zero_max,
      List.range'_succ, changesAt_cons, hf.head_nil, hg.head]
  | case4 n e es a as ih =>
    rw [ih hf.tail hg.tail, List.length_cons, List.length_cons, Nat.add_max_add_right,
      List.range'_succ, changesAt_cons, hf.head, hg.head]

section

variable (expected actual : String)

theorem changes_eq : changes expected.toList actual.toList =
    (shownPositions expected actual).map fun i => ⟨i, shownAt expected i, shownAt actual i⟩ :=
  changesFrom_eq (fills_shownAt expected) (fills_shownAt actual)

theorem pairwise_shownPositions : (shownPositions expected actual).Pairwise (· < ·) :=
  List.Pairwise.filter _ List.pairwise_lt_range'

theorem shownAt_of_length_lt {text : String} {i : Nat} (h : (lines text.toList).length < i) :
    shownAt text i = [] := by
  cases i with
  | zero => rfl
  | succ i => simp [shownAt, lineAt?, List.getElem?_eq_none (Nat.lt_succ_iff.1 h)]

/-- No difference stands behind the ends of both texts. -/
theorem mem_shownPositions {i : Nat} :
    i ∈ shownPositions expected actual ↔ shownAt expected i ≠ shownAt actual i := by
  rw [shownPositions, List.mem_filter, decide_eq_true_iff, and_iff_right_iff_imp]
  intro hdiffer
  rw [List.mem_range'_1]
  constructor
  · by_contra hzero
    have : i = 0 := by omega
    subst this
    exact hdiffer rfl
  · by_contra hfar
    have hexpected : shownAt expected i = [] := shownAt_of_length_lt (by omega)
    have hactual : shownAt actual i = [] := shownAt_of_length_lt (by omega)
    exact hdiffer (hexpected.trans hactual.symm)

/-! ## The text of a difference -/

theorem Change.chars_eq (c : Change) : c.chars =
    written [positionLine c.line, '-' :: c.expected, '+' :: c.actual] := by
  unfold Change.chars positionLine
  simp

variable {expected actual}

theorem writtenAs_diff (h : expected ≠ actual) :
    WrittenAs (diff expected actual) (diffLines expected actual) := by
  have hchanges : (changes expected.toList actual.toList).flatMap Change.chars =
      written ((shownPositions expected actual).flatMap (hunk expected actual)) := by
    rw [changes_eq, List.flatMap_map, written, List.flatMap_assoc]
    exact List.flatMap_congr fun i _ => Change.chars_eq _
  unfold WrittenAs diff
  rw [if_neg h, String.toList_append, String.toList_ofList, hchanges, diffLines, written_append]
  simp [headLines]

theorem lineFeed_notMem_shownAt (text : String) (i : Nat) : '\n' ∉ shownAt text i := by
  cases h : lineAt? text i with
  | none => simp [shownAt, h]
  | some line =>
    rw [shownAt, h]
    cases i with
    | zero => cases h
    | succ i => exact lineFeed_notMem_lines (List.mem_of_getElem? h)

theorem lineFeed_notMem_positionLine (i : Nat) : '\n' ∉ positionLine i := by
  have hdigits : '\n' ∉ Nat.toDigits 10 i := fun hmem =>
    absurd (Json.isDigit_of_mem_toDigits hmem) (by decide)
  unfold positionLine
  simp [hdigits]

theorem lineFeed_notMem_diffLines {line : List Char} (h : line ∈ diffLines expected actual) :
    '\n' ∉ line := by
  rw [diffLines, List.mem_append, List.mem_flatMap] at h
  rcases h with hhead | ⟨i, -, hhunk⟩
  · revert line
    decide
  · simp only [hunk, List.mem_cons, List.not_mem_nil, or_false] at hhunk
    rcases hhunk with rfl | rfl | rfl
    · exact lineFeed_notMem_positionLine i
    · simp [lineFeed_notMem_shownAt]
    · simp [lineFeed_notMem_shownAt]

theorem cut_diff (h : expected ≠ actual) :
    cut (diff expected actual) = diffLines expected actual ++ [[]] :=
  (writtenAs_diff h).cut_eq fun _ => lineFeed_notMem_diffLines

theorem positionLine_injective {i j : Nat} (h : positionLine i = positionLine j) : i = j := by
  unfold positionLine at h
  rw [List.append_cancel_right_eq, List.append_cancel_left_eq] at h
  rw [Nat.toString_eq_repr, Nat.toString_eq_repr, Nat.toList_repr, Nat.toList_repr] at h
  rw [← Json.digitsValue_toDigits i, h, Json.digitsValue_toDigits]

/-- A line that tells a position begins like no other line of a difference. -/
theorem positionLine_mem_hunk {i j : Nat} (h : positionLine i ∈ hunk expected actual j) :
    i = j := by
  have hmark : (positionLine i).head? = some '@' := rfl
  simp only [hunk, List.mem_cons, List.not_mem_nil, or_false] at h
  rcases h with heq | heq | heq
  · exact positionLine_injective heq
  · cases heq ▸ hmark
  · cases heq ▸ hmark

theorem positionLine_notMem_headLines (i : Nat) : positionLine i ∉ headLines := by
  have hmark : (positionLine i).head? = some '@' := rfl
  have hhead : ∀ line ∈ headLines, line.head? ≠ some '@' := by decide
  exact fun hmem => hhead _ hmem hmark

/-- A difference shows the positions at which the texts, filled up with empty lines, are not the
same. -/
theorem shows_iff (h : expected ≠ actual) (i : Nat) :
    Shows expected actual i ↔ shownAt expected i ≠ shownAt actual i := by
  rw [Shows, cut_diff h, ← mem_shownPositions]
  constructor
  · intro hinfix
    have hline : positionLine i ∈ diffLines expected actual ++ [[]] :=
      hinfix.subset List.mem_cons_self
    rw [List.mem_append, diffLines, List.mem_append, List.mem_flatMap] at hline
    rcases hline with (hhead | ⟨j, hj, hhunk⟩) | hlast
    · exact absurd hhead (positionLine_notMem_headLines i)
    · rw [positionLine_mem_hunk hhunk]
      exact hj
    · cases List.mem_singleton.1 hlast
  · intro hmem
    obtain ⟨before, after, hsplit⟩ := List.append_of_mem hmem
    refine ⟨headLines ++ before.flatMap (hunk expected actual),
      after.flatMap (hunk expected actual) ++ [[]], ?_⟩
    simp [diffLines, hsplit]

/-! ## Differences that are not shown -/

theorem shownAt_ne_iff {i : Nat} (hopen : ¬HidesDifference expected actual) :
    shownAt expected i ≠ shownAt actual i ↔ lineAt? expected i ≠ lineAt? actual i := by
  refine not_congr ⟨fun hshown => ?_, fun hline => by rw [shownAt, shownAt, hline]⟩
  rw [shownAt, shownAt] at hshown
  cases he : lineAt? expected i with
  | none =>
    cases ha : lineAt? actual i with
    | none => rfl
    | some line =>
      rw [he, ha] at hshown
      cases (show [] = line from hshown)
      exact absurd (.inr ⟨i, .inr ⟨he, ha⟩⟩) hopen
  | some line =>
    cases ha : lineAt? actual i with
    | none =>
      rw [he, ha] at hshown
      cases (show line = [] from hshown)
      exact absurd (.inr ⟨i, .inl ⟨he, ha⟩⟩) hopen
    | some other =>
      rw [he, ha] at hshown
      exact congrArg some hshown

/-- Texts of which some lines differ have different lines at some position. -/
theorem exists_lineAt?_ne (h : lines expected.toList ≠ lines actual.toList) :
    ∃ i, lineAt? expected i ≠ lineAt? actual i := by
  by_contra hnone
  push Not at hnone
  exact h (List.ext_getElem? fun i => hnone (i + 1))

/-- All differences are shown, and at least one, unless one is hidden. -/
theorem shows_all_iff (h : expected ≠ actual) :
    ((∃ i, Shows expected actual i) ∧
      ∀ i, Shows expected actual i ↔ lineAt? expected i ≠ lineAt? actual i) ↔
      ¬HidesDifference expected actual := by
  simp only [shows_iff h]
  constructor
  · rintro ⟨⟨i, hi⟩, hall⟩ (hlines | ⟨j, hblank⟩)
    · cases i with
      | zero => exact hi rfl
      | succ i => exact hi (by rw [shownAt, shownAt, lineAt?, lineAt?, hlines])
    · rcases hblank with ⟨he, ha⟩ | ⟨he, ha⟩
      · exact (hall j).2 (by simp [he, ha]) (by simp [shownAt, he, ha])
      · exact (hall j).2 (by simp [he, ha]) (by simp [shownAt, he, ha])
  · intro hopen
    obtain ⟨i, hi⟩ := exists_lineAt?_ne fun hlines => hopen (.inl hlines)
    exact ⟨⟨i, (shownAt_ne_iff hopen).2 hi⟩, fun i => shownAt_ne_iff hopen⟩

theorem diff_eq_identical_iff (expected actual : String) :
    diff expected actual = "[identical]" ↔ expected = actual := by
  by_cases h : expected = actual
  · exact iff_of_true (if_pos h) h
  · refine iff_of_false (fun hsame => ?_) h
    have hhead : (cut "[identical]").head? ≠ some "--- expected".toList := by decide
    rw [← hsame, cut_diff h] at hhead
    exact hhead rfl

/-- The difference of two texts tells them identical just if they are the same. Otherwise it is made
of two head lines and of hunks for positions in their order, each of which shows what both texts
have there. Every position at which a line differs, or is there in only one of the texts, has a
hunk, no other has one, and there is at least one, unless the difference is of the kind that is
hidden. -/
theorem diff_shows_differences_iff (expected actual : String) :
    (diff expected actual = "[identical]" ↔ expected = actual) ∧
    (expected ≠ actual →
      (∃ positions : List Nat, positions.Pairwise (· < ·) ∧ cut (diff expected actual) =
        headLines ++ positions.flatMap (hunk expected actual) ++ [[]]) ∧
      (∀ i, Shows expected actual i ↔ shownAt expected i ≠ shownAt actual i) ∧
      (((∃ i, Shows expected actual i) ∧
        ∀ i, Shows expected actual i ↔ lineAt? expected i ≠ lineAt? actual i) ↔
        ¬HidesDifference expected actual)) := by
  refine ⟨diff_eq_identical_iff expected actual, fun h => ⟨?_, shows_iff h, shows_all_iff h⟩⟩
  exact ⟨_, pairwise_shownPositions expected actual, cut_diff h⟩

end

/-- A text in which one line is another and to which one is added. -/
theorem diff_shows_differences_sample :
    let expected := "a\nb\n"
    let actual := "a\nx\nc"
    expected ≠ actual ∧ Shows expected actual 2 ∧ Shows expected actual 3 ∧
      ∀ i, Shows expected actual i ↔ lineAt? expected i ≠ lineAt? actual i := by
  intro expected actual
  have hne : expected ≠ actual := by decide
  have hblank {text : String} (h : [] ∉ lines text.toList) (i : Nat) :
      lineAt? text i ≠ some [] := by
    cases i with
    | zero => exact nofun
    | succ i => exact fun hline => h (List.mem_of_getElem? hline)
  have hopen : ¬HidesDifference expected actual := by
    rintro (hlines | ⟨i, ⟨hexpected, -⟩ | ⟨-, hactual⟩⟩)
    · exact absurd hlines (by decide)
    · exact hblank (by decide) i hexpected
    · exact hblank (by decide) i hactual
  obtain ⟨-, -, hall⟩ := (diff_shows_differences_iff expected actual).2 hne
  have hshows := (hall.2 hopen).2
  exact ⟨hne, (hshows 2).2 (by decide), (hshows 3).2 (by decide), hshows⟩

/-- An empty line that only one of two texts has is not shown. -/
theorem blank_line_unshown :
    let expected := "a\n"
    let actual := "a\n\n"
    expected ≠ actual ∧ lineAt? expected 2 = none ∧ lineAt? actual 2 = some [] ∧
      diff expected actual = "--- expected\n+++ actual\n" ∧ ∀ i, ¬Shows expected actual i := by
  intro expected actual
  have hne : expected ≠ actual := by decide
  have hnowhere : shownPositions expected actual = [] := by decide
  have hdiff : diff expected actual = "--- expected\n+++ actual\n" := by
    rw [← String.toList_inj, writtenAs_diff hne, diffLines, hnowhere]
    decide
  refine ⟨hne, by decide, by decide, hdiff, fun i => ?_⟩
  rw [shows_iff hne, ← mem_shownPositions, hnowhere]
  exact List.not_mem_nil

end CText.Conformance
