import CText.Log.Emitter
import CText.Proofs.Log.Lines
import CText.Proofs.Text.Written

/-!
# Logs of proper entries have no findings

The text of a log falls into the lines that were written. If all of them are lines of entries that
keep the contract, an examination counts them and finds nothing.
-/

namespace CText

namespace Log

open Text

/-- A line that begins and ends with braces is not shortened. -/
theorem trim_braced (inside : List Char) :
    trim ('{' :: inside ++ ['}']) = '{' :: inside ++ ['}'] := by
  have hopen : isBlank '{' = false := by decide
  have hclose : isBlank '}' = false := by decide
  rw [trim, List.cons_append, List.dropWhile_cons_of_neg (by simp [hopen])]
  rw [← List.cons_append, List.reverse_append, List.reverse_singleton, List.singleton_append,
    List.dropWhile_cons_of_neg (by simp [hclose])]
  simp

theorem dropReturn_braced (inside : List Char) :
    dropReturn ('{' :: inside ++ ['}']) = '{' :: inside ++ ['}'] := by
  rw [dropReturn, List.getLast?_concat, if_neg (by decide)]

theorem Entry.line_braced (e : Entry) : ∃ inside, e.line.toList = '{' :: inside ++ ['}'] := by
  rw [line, toJson_eq, Json.compact, String.toList_ofList]
  exact ⟨_, rfl⟩

/-- The lines of proper entries, as they stand in a text. -/
theorem lines_text {log : Emitter} {entries : List Entry}
    (hlines : log.lines.toList = entries.map Entry.line) (proper : ∀ e ∈ entries, e.Proper) :
    lines log.text.toList = entries.map (·.line.toList) := by
  have htext : log.text.toList = written (entries.map (·.line.toList)) := by
    simp [Emitter.text, written, hlines, List.flatMap_map]
  rw [htext]
  refine lines_written fun line hline => ?_
  obtain ⟨e, he, rfl⟩ := List.mem_map.1 hline
  obtain ⟨inside, hinside⟩ := e.line_braced
  refine ⟨(proper e he).lineFeed_notMem, ?_⟩
  rw [hinside, dropReturn_braced]

/-- No line of an entry is blank, and none has blanks at its ends. -/
theorem entryLines_text {log : Emitter} {entries : List Entry}
    (hlines : log.lines.toList = entries.map Entry.line) (proper : ∀ e ∈ entries, e.Proper) :
    entryLines log.text = (entries.zipIdx 1).map fun numbered => (numbered.2, numbered.1.line) := by
  have htrim (e : Entry) : String.ofList (trim e.line.toList) = e.line := by
    obtain ⟨inside, hinside⟩ := e.line_braced
    rw [hinside, trim_braced, ← hinside, String.ofList_toList]
  have hne (e : Entry) : e.line ≠ "" := by
    intro h
    obtain ⟨inside, hinside⟩ := e.line_braced
    rw [h] at hinside
    cases hinside
  rw [entryLines, lines_text hlines proper, List.zipIdx_map, List.map_map, List.filter_eq_self.2]
  · refine List.map_congr_left fun numbered _ => ?_
    simp [htrim]
  · intro found hfound
    obtain ⟨numbered, -, rfl⟩ := List.mem_map.1 hfound
    simp [htrim, hne]

/-- An examination of the lines of proper entries counts them and finds nothing. -/
theorem examine_text {log : Emitter} {entries : List Entry}
    (hlines : log.lines.toList = entries.map Entry.line) (proper : ∀ e ∈ entries, e.Proper) :
    examine log.text = ⟨entries.length, []⟩ := by
  rw [examine, entryLines_text hlines proper, List.length_map, List.length_zipIdx, List.flatMap_map]
  congr 1
  refine List.flatMap_eq_nil_iff.2 fun numbered hnumbered => ?_
  have he : numbered.1 ∈ entries := List.fst_mem_of_mem_zipIdx hnumbered
  simp only [findings, (proper _ he).readLine_line]

end Log

end CText
