import CText.Proofs.Fields
import CText.Text.Basic
import Mathlib.Data.List.Basic

/-!
# Lines that are written

A text that is written line by line, with a line feed behind each line, is cut into the same lines
again, and an empty rest behind the last line feed.
-/

namespace CText.Text

/-- The parts of a text between its line feeds. The last part is what stands behind the last line
feed, and a text without line feeds is a single part. -/
def cut (s : String) : List (List Char) := fields (· == '\n') s.toList

/-- Lines with a line feed behind each of them. -/
def written (lines : List (List Char)) : List Char := lines.flatMap (· ++ ['\n'])

variable {lines others : List (List Char)}

@[simp] theorem written_nil : written [] = [] := rfl

@[simp] theorem written_cons (line : List Char) (lines : List (List Char)) :
    written (line :: lines) = line ++ '\n' :: written lines := by
  simp [written]

@[simp] theorem written_append : written (lines ++ others) = written lines ++ written others :=
  List.flatMap_append

theorem fields_of_lineFeed_notMem {line : List Char} (h : '\n' ∉ line) :
    fields (· == '\n') line = [line] := by
  refine fields_of_free fun c hc => ?_
  rw [beq_eq_false_iff_ne]
  rintro rfl
  exact h hc

/-- Lines that are written are found again, with nothing behind the last. -/
theorem fields_written (h : ∀ line ∈ lines, '\n' ∉ line) :
    fields (· == '\n') (written lines) = lines ++ [[]] := by
  induction lines with
  | nil => rfl
  | cons line lines ih =>
    rw [List.forall_mem_cons] at h
    rw [written_cons, fields_append rfl, fields_of_lineFeed_notMem h.1, ih h.2]
    rfl

def WrittenAs (s : String) (lines : List (List Char)) : Prop := s.toList = written lines

namespace WrittenAs

variable {s t : String}

theorem cut_eq (hs : WrittenAs s lines) (h : ∀ line ∈ lines, '\n' ∉ line) :
    cut s = lines ++ [[]] := by
  rw [cut, hs, fields_written h]

theorem append (hs : WrittenAs s lines) (ht : WrittenAs t others) :
    WrittenAs (s ++ t) (lines ++ others) := by
  rw [WrittenAs, String.toList_append, hs, ht, written_append]

theorem join {α : Type} {l : List α} {f : α → String} {g : α → List (List Char)}
    (h : ∀ a ∈ l, WrittenAs (f a) (g a)) : WrittenAs (String.join (l.map f)) (l.flatMap g) := by
  rw [WrittenAs, String.toList_join, List.flatMap_map, written, List.flatMap_assoc]
  exact List.flatMap_congr h

end WrittenAs

/-! ## Lines of a text -/

theorem endLines_ended (h : ∀ line ∈ lines, dropReturn line = line) :
    endLines (lines ++ [[]]) = lines := by
  induction lines with
  | nil => rfl
  | cons line lines ih =>
    rw [List.forall_mem_cons] at h
    have hrest := ih h.2
    cases lines with
    | nil =>
      rw [List.singleton_append, endLines, h.1]
      rfl
    | cons next lines =>
      rw [List.cons_append] at hrest ⊢
      rw [List.cons_append, endLines, h.1, hrest]

/-- Lines that are written are the lines of the text, if no carriage return stands at their ends. -/
theorem lines_written (h : ∀ line ∈ lines, '\n' ∉ line ∧ dropReturn line = line) :
    Text.lines (written lines) = lines := by
  rw [Text.lines, fields_written fun line hline => (h line hline).1,
    endLines_ended fun line hline => (h line hline).2]

theorem lineFeed_notMem_dropReturn {line : List Char} (h : '\n' ∉ line) :
    '\n' ∉ dropReturn line := by
  rw [dropReturn]
  split
  · exact fun hmem => h (List.dropLast_subset _ hmem)
  · exact h

theorem lineFeed_notMem_endLines {parts : List (List Char)} (h : ∀ part ∈ parts, '\n' ∉ part) :
    ∀ line ∈ endLines parts, '\n' ∉ line := by
  fun_induction endLines parts with
  | case1 => simp
  | case2 last hempty => simp
  | case3 last hempty => simpa using h
  | case4 part next rest ih =>
    rw [List.forall_mem_cons] at h ⊢
    exact ⟨lineFeed_notMem_dropReturn h.1, ih h.2⟩

/-- No line of a text holds a line feed. -/
theorem lineFeed_notMem_lines {s line : List Char} (h : line ∈ Text.lines s) : '\n' ∉ line := by
  refine lineFeed_notMem_endLines (fun part hpart hmem => ?_) line h
  exact absurd (free_of_mem_fields hpart '\n' hmem) (by decide)

end CText.Text
