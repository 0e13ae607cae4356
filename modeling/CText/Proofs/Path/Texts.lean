import CText.Proofs.Path.Relative
import CText.Proofs.Text.Utf8
import Mathlib.Data.Set.List

/-!
# Paths that are texts

The slash, the dot and the terminator are bytes of ASCII, and a byte of ASCII stands in no character
but its own. So the components of a text are texts, and to clean a text as bytes is to clean it as
characters. What is made of texts by making paths absolute or relative is a text, too.
-/

namespace CText.Path

open Utf8

/-! ## Cleaning over any alphabet -/

/-- The three units of an alphabet that mean something in a path. -/
structure Marks (α : Type) where
  slash : α
  dot : α
  nul : α

namespace Marks

variable {α : Type} [DecidableEq α] (marks : Marks α)

def split (path : List α) : List (List α) := fields (· == marks.slash) path

def push (rooted : Bool) (above : List (List α)) (part : List α) : List (List α) :=
  if part = [] ∨ part = [marks.dot] then above
  else if part = [marks.dot, marks.dot] then
    match above with
    | [] => if rooted then [] else [[marks.dot, marks.dot]]
    | top :: rest =>
      if top = [marks.dot, marks.dot] then [marks.dot, marks.dot] :: above else rest
  else part :: above

def ofComponents (rooted : Bool) (parts : List (List α)) : List α :=
  let joined := joinWith marks.slash parts
  let path := if rooted then marks.slash :: joined else joined
  if path.isEmpty then [marks.dot] else path

def clean (path : List α) : List α :=
  let path := path.takeWhile (· ≠ marks.nul)
  let rooted := path.head? == some marks.slash
  marks.ofComponents rooted ((marks.split path).foldl (marks.push rooted) []).reverse

end Marks

def octets : Marks UInt8 := ⟨slash, 46, CodeUnit.nul⟩

def characters : Marks Char := ⟨'/', '.', '\x00'⟩

theorem octets_push : octets.push = push := by
  funext rooted above part
  cases above <;> rfl

/-- Over bytes it is the cleaning of paths. -/
theorem octets_clean (path : List UInt8) : octets.clean path = clean path := by
  rw [Marks.clean, octets_push]
  rfl

/-! ## Cleaning as bytes and as characters -/

variable {rooted : Bool}

theorem content_encode (text : List Char) :
    CString.content (encode text) = encode (text.takeWhile (· ≠ characters.nul)) := by
  induction text with
  | nil => rfl
  | cons c text ih =>
    by_cases hc : c = characters.nul
    · subst hc
      rfl
    · have hfree : CodeUnit.nul ∉ encodeChar c := notMem_encodeChar (by decide) hc
      have hkeep : (c :: text).takeWhile (· ≠ characters.nul) =
          c :: text.takeWhile (· ≠ characters.nul) :=
        List.takeWhile_cons_of_pos (decide_eq_true hc)
      rw [hkeep, encode_cons, encode_cons, CString.content_append hfree, ih]

theorem split_encode (text : List Char) :
    split (encode text) = (characters.split text).map encode := by
  induction text with
  | nil => rfl
  | cons c text ih =>
    by_cases hc : c = characters.slash
    · subst hc
      have hbytes : split (encode (characters.slash :: text)) = [] :: split (encode text) :=
        fields_cons_separator (by decide) (encode text)
      have htext : characters.split (characters.slash :: text) = [] :: characters.split text :=
        fields_cons_separator (by decide) text
      rw [hbytes, htext, ih]
      rfl
    · have hfree : ∀ b ∈ encodeChar c, (b == slash) = false :=
        ne_slash_of_notMem (notMem_encodeChar (by decide) hc)
      obtain ⟨first, rest, hfirst, hbytes⟩ := fields_append_free hfree (encode text)
      obtain ⟨field, others, hfield, htext⟩ :
          ∃ field others, characters.split text = field :: others ∧
            characters.split (c :: text) = (c :: field) :: others := by
        refine fields_cons_other ?_ text
        exact beq_eq_false_iff_ne.2 hc
      rw [hfield, split, hfirst] at ih
      obtain ⟨rfl, rfl⟩ := List.cons.inj ih
      rw [encode_cons, split, hbytes, htext]
      rfl

theorem isAbsolute_encode (text : List Char) :
    isAbsolute (encode text) = (text.head? == some characters.slash) := by
  cases text with
  | nil => rfl
  | cons c text =>
    by_cases hc : c = characters.slash
    · subst hc
      rfl
    · have hfree : slash ∉ encodeChar c := notMem_encodeChar (by decide) hc
      rw [encode_cons, isAbsolute_append_of_ne_nil (encodeChar_ne_nil c), isAbsolute_of_notMem hfree]
      simpa using hc

theorem joinWith_encode (parts : List (List Char)) :
    joinWith slash (parts.map encode) = encode (joinWith characters.slash parts) := by
  induction parts with
  | nil => rfl
  | cons part others ih =>
    by_cases hothers : others = []
    · rw [hothers]
      rfl
    · have hmap : others.map encode ≠ [] := fun h => hothers (List.map_eq_nil_iff.1 h)
      rw [List.map_cons, joinWith_cons_of_ne_nil hmap, joinWith_cons_of_ne_nil hothers, ih,
        encode_append]
      rfl

theorem encode_eq_nil_iff {text : List Char} : encode text = [] ↔ text = [] :=
  encode_injective.eq_iff' rfl

theorem encode_eq_dot_iff {text : List Char} : encode text = dot ↔ text = [characters.dot] :=
  encode_injective.eq_iff' rfl

theorem encode_eq_dotdot_iff {text : List Char} :
    encode text = dotdot ↔ text = [characters.dot, characters.dot] :=
  encode_injective.eq_iff' rfl

/-- What a component does to a stack it does alike to the bytes. -/
theorem push_encode (rooted : Bool) (above : List (List Char)) (part : List Char) :
    push rooted (above.map encode) (encode part) = (characters.push rooted above part).map encode := by
  unfold push Marks.push
  simp only [encode_eq_nil_iff, encode_eq_dot_iff, encode_eq_dotdot_iff]
  split
  · rfl
  split
  · cases above with
    | nil => cases rooted <;> rfl
    | cons top rest =>
      simp only [List.map_cons, encode_eq_dotdot_iff]
      split <;> rfl
  · rfl

theorem foldl_push_encode (parts above : List (List Char)) :
    (parts.map encode).foldl (push rooted) (above.map encode) =
      (parts.foldl (characters.push rooted) above).map encode := by
  induction parts generalizing above with
  | nil => rfl
  | cons part parts ih => rw [List.map_cons, List.foldl_cons, push_encode, ih, List.foldl_cons]

theorem ofComponents_encode (rooted : Bool) (parts : List (List Char)) :
    ofComponents rooted (parts.map encode) = encode (characters.ofComponents rooted parts) := by
  have hfront : ∀ text, (if rooted then slash :: encode text else encode text) =
      encode (if rooted then characters.slash :: text else text) := by
    intro text
    cases rooted <;> rfl
  rw [ofComponents, Marks.ofComponents, joinWith_encode, hfront]
  generalize (if rooted then characters.slash :: joinWith characters.slash parts
    else joinWith characters.slash parts) = text
  simp only [List.isEmpty_iff, encode_eq_nil_iff]
  split <;> rfl

/-- To clean a text as bytes is to clean it as characters. -/
theorem clean_encode (text : List Char) : clean (encode text) = encode (characters.clean text) := by
  rw [clean, Marks.clean, ← ofComponents_encode, content_encode, split_encode, isAbsolute_encode,
    List.map_reverse]
  exact congrArg (fun parts => ofComponents _ parts.reverse) (foldl_push_encode _ [])

/-! ## Absolute and relative paths -/

/-- Bytes that are the bytes of some characters. -/
def IsText (path : List UInt8) : Prop := path ∈ Set.range encode

variable {file path : List UInt8} {reference : Option (List UInt8)} {cwd : WorkingDirectory}

theorem isText_bytes (text : String) : IsText (Utf8.bytes text) :=
  ⟨text.toList, rfl⟩

theorem IsText.content (h : IsText path) : IsText (CString.content path) := by
  obtain ⟨text, rfl⟩ := h
  exact ⟨_, (content_encode text).symm⟩

theorem IsText.under {dir : List UInt8} (hdir : IsText dir) (h : IsText path) :
    IsText (dir ++ slash :: path) := by
  obtain ⟨text, rfl⟩ := h
  obtain ⟨front, rfl⟩ := hdir
  exact ⟨front ++ characters.slash :: text, encode_append _ _⟩

theorem IsText.clean (h : IsText path) : IsText (clean path) := by
  obtain ⟨text, rfl⟩ := h
  exact ⟨_, (clean_encode text).symm⟩

theorem IsText.components (h : IsText path) : ∀ part ∈ components path, IsText part := by
  obtain ⟨text, rfl⟩ := h
  intro part hpart
  have hsplit := (List.mem_filter.1 hpart).1
  rw [split_encode] at hsplit
  obtain ⟨field, -, rfl⟩ := List.mem_map.1 hsplit
  exact ⟨field, rfl⟩

theorem isText_ofComponents {parts : List (List UInt8)} (h : ∀ part ∈ parts, IsText part)
    (rooted : Bool) : IsText (ofComponents rooted parts) := by
  obtain ⟨texts, rfl⟩ : parts ∈ Set.range (List.map encode) := by
    rw [Set.range_list_map]
    exact h
  exact ⟨_, (ofComponents_encode rooted texts).symm⟩

theorem isText_absolute (hfile : IsText file) (hreference : ∀ r ∈ reference, IsText r)
    (hcwd : ∀ dir, cwd = .ok dir → IsText dir) (h : absolute file reference cwd = .ok path) :
    IsText path := by
  obtain ⟨whole, hplaced, -, rfl⟩ := exists_placed h
  refine IsText.clean (placed_induction hfile hreference hcwd ?_ ?_ hplaced)
  · exact fun s hs _ => hs.content
  · exact fun base s hbase hs => hbase.under hs.content

/-- The components of the reference are compared and counted, and none of them is written. -/
theorem isText_relative (hfile : IsText file) (hcwd : ∀ dir, cwd = .ok dir → IsText dir)
    (h : relative file reference cwd = .ok path) : IsText path := by
  have hdotdot : IsText dotdot := ⟨[characters.dot, characters.dot], rfl⟩
  obtain ⟨F, R, hF, -, rfl⟩ := exists_of_relative h
  have htext : IsText F := isText_absolute hfile (by simp) hcwd hF
  refine isText_ofComponents (fun part hpart => ?_) false
  rcases List.mem_append.1 hpart with hup | hdown
  · rw [List.eq_of_mem_replicate hup]
    exact hdotdot
  · exact htext.components part (List.mem_of_mem_drop hdown)

theorem exists_text_answer {result : Except Error (List UInt8)}
    (h : ∀ path, result = .ok path → IsText path) :
    ∃ answer : Except Error String, result = answer.map Utf8.bytes := by
  cases result with
  | error e => exact ⟨.error e, rfl⟩
  | ok path =>
    obtain ⟨text, rfl⟩ := h path rfl
    refine ⟨.ok (String.ofList text), ?_⟩
    rw [Except.map, Utf8.bytes, String.toList_ofList]

theorem cleanText_eq (path : String) :
    cleanText path = String.ofList (characters.clean path.toList) := by
  rw [cleanText, Utf8.bytes, clean_encode, repair_encode]

theorem bytes_cleanText (path : String) :
    Utf8.bytes (cleanText path) = clean (Utf8.bytes path) := by
  rw [cleanText_eq, Utf8.bytes, String.toList_ofList, Utf8.bytes, clean_encode]

/-- Cleaning a text in its bytes leaves the bytes of a text, so that nothing is replaced when it is
read as a text again, and that text is the clean form of the characters, by the same walk that
cleans bytes. What a file is made absolute or relative to is a text if the file, the reference and
the working directory are. -/
theorem paths_of_texts_are_texts :
    (∀ path : String,
      cleanInPlace (Utf8.bytes path) = .ok (Utf8.bytes (cleanText path)) ∧
        Utf8.text? (clean (Utf8.bytes path)) = some (cleanText path) ∧
        cleanText path = String.ofList (characters.clean path.toList)) ∧
    (∀ path, octets.clean path = clean path) ∧
    ∀ (file : String) (reference : Option String) (cwd : Except Error String),
      (∃ answer : Except Error String,
        absolute (Utf8.bytes file) (reference.map Utf8.bytes) (cwd.map Utf8.bytes) =
          answer.map Utf8.bytes) ∧
      ∃ answer : Except Error String,
        relative (Utf8.bytes file) (reference.map Utf8.bytes) (cwd.map Utf8.bytes) =
          answer.map Utf8.bytes := by
  refine ⟨fun path => ⟨?_, ?_, cleanText_eq path⟩, octets_clean, fun file reference cwd => ?_⟩
  · rw [cleanInPlace_eq, bytes_cleanText]
  · rw [← bytes_cleanText, text?_bytes]
  · have hfile := isText_bytes file
    have hreference : ∀ r ∈ reference.map Utf8.bytes, IsText r := by
      intro r hr
      obtain ⟨text, -, rfl⟩ := Option.map_eq_some_iff.1 hr
      exact isText_bytes text
    have hcwd : ∀ dir, cwd.map Utf8.bytes = .ok dir → IsText dir := by
      intro dir hdir
      cases cwd with
      | error e => cases hdir
      | ok text =>
        cases hdir
        exact isText_bytes text
    exact ⟨exists_text_answer fun path => isText_absolute hfile hreference hcwd,
      exists_text_answer fun path => isText_relative hfile hcwd⟩

end CText.Path
