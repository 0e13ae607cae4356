import CText.Byte
import CText.Wide
import CText.Proofs.CString.Building
import CText.Proofs.CString.Comparing
import CText.Proofs.CString.Tokens

/-!
# What a routine reads of a string

A routine that only reads a buffer reads it as a string. It makes no difference whether a terminator
stands behind the string or the buffer ends there, and what comes after a terminator is not looked
at. This holds of every argument that is not written to: the answer, the buffer written and the
promise that is broken stay the same if the string is put in the place of the buffer.
-/

namespace CText.CString

section

variable {α β γ : Type} [DecidableEq α] [CodeUnit α]

/-- The routine does the same to a buffer, to the string in it alone, and to that string with a
terminator and anything behind it. -/
def ReadsString (f : List α → β) : Prop :=
  ∀ s, f (content s) = f s ∧ ∀ behind, f (content s ++ CodeUnit.nul :: behind) = f s

/-- The same of both arguments. -/
def ReadsStrings (f : List α → List α → β) : Prop :=
  (∀ t, ReadsString fun s => f s t) ∧ ∀ s, ReadsString (f s)

theorem readsString_of_content {f : List α → β} (h : ∀ s, f (content s) = f s) :
    ReadsString f := by
  intro s
  refine ⟨h s, fun behind => ?_⟩
  have hcontent : content (content s ++ CodeUnit.nul :: behind) = content s := by
    rw [content_append (nul_notMem_content s), content_cons_nul, List.append_nil]
  rw [← h (content s ++ CodeUnit.nul :: behind), hcontent, h]

theorem readsStrings_of_content {f : List α → List α → β}
    (left : ∀ s t, f (content s) t = f s t) (right : ∀ s t, f s (content t) = f s t) :
    ReadsStrings f :=
  ⟨fun t => readsString_of_content fun s => left s t, fun s => readsString_of_content (right s)⟩

theorem ReadsString.map {f : List α → β} (h : ReadsString f) (g : β → γ) :
    ReadsString fun s => g (f s) := by
  intro s
  exact ⟨congrArg g (h s).1, fun behind => congrArg g ((h s).2 behind)⟩

theorem ReadsStrings.map {f : List α → List α → β} (h : ReadsStrings f) (g : β → γ) :
    ReadsStrings fun s t => g (f s t) :=
  ⟨fun t => (h.1 t).map g, fun s => (h.2 s).map g⟩

theorem readsString_length : ReadsString (length : List α → Nat) := by
  apply readsString_of_content
  intro s
  rw [length_eq, length_eq, content_content]

theorem readsString_boundedLength (n : Nat) :
    ReadsString fun s : List α => boundedLength s n := by
  apply readsString_of_content
  intro s
  rw [boundedLength_eq, boundedLength_eq, content_content]

theorem readsString_copy (routine : String) (dest : List α) :
    ReadsString (copy routine dest) := by
  apply readsString_of_content
  intro s
  rw [copy_eq, copy_eq, content_content]

theorem readsString_copyWindow (dest : List α) (n : Nat) :
    ReadsString fun src => copyWindow dest src n := by
  apply readsString_of_content
  intro s
  rw [copyWindow_eq, copyWindow_eq, content_content]

theorem readsString_append (routine : String) (dest : List α) (n : Nat) :
    ReadsString fun src => append routine dest src n := by
  apply readsString_of_content
  intro s
  rw [append_eq, append_eq, content_content]

theorem readsString_append_whole (routine : String) (dest : List α) :
    ReadsString fun src => append routine dest src src.length := by
  apply readsString_of_content
  intro s
  rw [append_whole, append_whole, content_content]

theorem readsString_copyCut (dest : List α) : ReadsString (copyCut dest) := by
  apply readsString_of_content
  intro s
  rw [copyCut_eq, copyCut_eq, content_content]

theorem readsString_appendCut (dest : List α) : ReadsString (appendCut dest) := by
  apply readsString_of_content
  intro s
  rw [appendCut_eq, appendCut_eq, content_content]

theorem readsStrings_compare (folding : Bool) (n : Nat) :
    ReadsStrings (compare folding n : List α → List α → Int) :=
  readsStrings_of_content (compare_content_left folding n) (compare_content_right folding n)

theorem readsStrings_compareAll (folding : Bool) :
    ReadsStrings (compareAll folding : List α → List α → Int) := by
  apply readsStrings_of_content
  · intro s t
    rw [compareAll_eq, compareAll_eq, content_content, compare_content_left]
  · intro s t
    rw [compareAll_eq, compareAll_eq, compare_content_right]

theorem indexOf_eq (s : List α) (c : α) :
    indexOf s c =
      if c = CodeUnit.nul then some (content s).length else (content s).findIdx? (· == c) := by
  rw [indexOf, Buffer.scanForward, take_length, length_eq]

theorem lastIndexOf_eq (s : List α) (c : α) :
    lastIndexOf s c =
      if c = CodeUnit.nul then some (content s).length
      else Buffer.lastIndex (· == c) (content s) := by
  rw [lastIndexOf, Buffer.scanBackward, take_length, length_eq]

theorem find_eq (folding : Bool) (hay needle : List α) :
    find folding hay needle = findFrom folding (content needle) (content hay) := by
  rw [find, take_length, take_length]

theorem sameUnit_eq (folding : Bool) (a b : α) :
    sameUnit folding a b = decide (fold folding a = fold folding b) := by
  cases folding <;> rfl

theorem isDelimiter_content (delims : List α) :
    isDelimiter (content delims) = isDelimiter delims := by
  funext u
  rw [isDelimiter, content_content]
  rfl

theorem readsString_indexOf (c : α) : ReadsString fun s => indexOf s c := by
  apply readsString_of_content
  intro s
  rw [indexOf_eq, indexOf_eq, content_content]

theorem readsString_lastIndexOf (c : α) : ReadsString fun s => lastIndexOf s c := by
  apply readsString_of_content
  intro s
  rw [lastIndexOf_eq, lastIndexOf_eq, content_content]

theorem readsStrings_find (folding : Bool) :
    ReadsStrings (find folding : List α → List α → Option Nat) := by
  apply readsStrings_of_content
  · intro hay needle
    rw [find_eq, find_eq, content_content]
  · intro hay needle
    rw [find_eq, find_eq, content_content]

theorem readsStrings_span (within : Bool) :
    ReadsStrings fun s set : List α => span s set within := by
  apply readsStrings_of_content
  · intro s set
    rw [span_eq_findIdx, span_eq_findIdx, content_content]
  · intro s set
    rw [span_eq_findIdx, span_eq_findIdx, isDelimiter_content]

theorem readsStrings_indexOfAny :
    ReadsStrings (indexOfAny : List α → List α → Option Nat) := by
  apply readsStrings_of_content
  · intro s set
    have hspan : span (content s) set false = span s set false :=
      ((readsStrings_span false).1 set s).1
    rw [indexOfAny, indexOfAny, hspan, (readsString_length s).1]
  · intro s set
    have hspan : span s (content set) false = span s set false :=
      ((readsStrings_span false).2 s set).1
    rw [indexOfAny, indexOfAny, hspan]

/-- A copy holds the string that was copied, and a terminator. -/
theorem duplicate_whole (width : Nat) (s : List α) :
    duplicate width s (length s) =
      (reserve width ((content s).length + 1)).map fun _ => content s ++ [CodeUnit.nul] := by
  rw [duplicate, take_length, length_eq]
  cases reserve width ((content s).length + 1) <;> rfl

theorem duplicate_bounded (width : Nat) (s : List α) (n : Nat) :
    duplicate width s (boundedLength s n) =
      (reserve width (((content s).take n).length + 1)).map fun _ =>
        (content s).take n ++ [CodeUnit.nul] := by
  rw [duplicate, boundedLength_eq, take_length_take]
  cases reserve width (((content s).take n).length + 1) <;> rfl

theorem readsString_duplicate (width : Nat) :
    ReadsString fun s : List α => duplicate width s (length s) := by
  apply readsString_of_content
  intro s
  rw [duplicate_whole, duplicate_whole, content_content]

theorem readsString_duplicate_bounded (width n : Nat) :
    ReadsString fun s : List α => duplicate width s (boundedLength s n) := by
  apply readsString_of_content
  intro s
  rw [duplicate_bounded, duplicate_bounded, content_content]

theorem readsString_separate (s : List α) (cursor : Option Nat) :
    ReadsString (separate s cursor) := by
  apply readsString_of_content
  intro delims
  simp only [separate, isDelimiter_content]

theorem readsString_skip (s : List α) (cursor : Option Nat) : ReadsString (skip s cursor) := by
  apply readsString_of_content
  intro delims
  simp only [skip, isDelimiter_content]

end

open Byte Wide

/-- Each routine on strings, of bytes and of wide units, reads the arguments that it does not write
to as strings. -/
theorem routines_read_strings :
    -- Lengths.
    ReadsString strlen ∧ (∀ n, ReadsString (strnlen · n)) ∧
    ReadsString wcslen ∧ (∀ n, ReadsString (wcsnlen · n)) ∧
    -- Copies to a buffer and what joins to it.
    (∀ dest, ReadsString (strcpy dest)) ∧ (∀ dest, ReadsString (stpcpy dest)) ∧
    (∀ dest n, ReadsString (strncpy dest · n)) ∧ (∀ dest n, ReadsString (stpncpy dest · n)) ∧
    (∀ dest, ReadsString (strcat dest)) ∧ (∀ dest n, ReadsString (strncat dest · n)) ∧
    (∀ dest, ReadsString (strlcpy dest)) ∧ (∀ dest, ReadsString (strlcat dest)) ∧
    (∀ dest, ReadsString (wcscpy dest)) ∧ (∀ dest, ReadsString (wcpcpy dest)) ∧
    (∀ dest n, ReadsString (wcsncpy dest · n)) ∧ (∀ dest, ReadsString (wcscat dest)) ∧
    (∀ dest n, ReadsString (wcsncat dest · n)) ∧
    -- Comparisons.
    ReadsStrings strcmp ∧ (∀ n, ReadsStrings (strncmp · · n)) ∧
    ReadsStrings strcasecmp ∧ (∀ n, ReadsStrings (strncasecmp · · n)) ∧
    ReadsStrings wcscmp ∧ (∀ n, ReadsStrings (wcsncmp · · n)) ∧
    ReadsStrings wcscasecmp ∧ (∀ n, ReadsStrings (wcsncasecmp · · n)) ∧
    -- Searches.
    (∀ c, ReadsString (strchr · c)) ∧ (∀ c, ReadsString (strchrnul · c)) ∧
    (∀ c, ReadsString (strrchr · c)) ∧ ReadsStrings strstr ∧ ReadsStrings strcasestr ∧
    ReadsStrings strspn ∧ ReadsStrings strcspn ∧ ReadsStrings strpbrk ∧
    (∀ c, ReadsString (wcschr · c)) ∧ (∀ c, ReadsString (wcsrchr · c)) ∧
    ReadsStrings wcsstr ∧ ReadsStrings wcsspn ∧ ReadsStrings wcscspn ∧ ReadsStrings wcspbrk ∧
    -- Copies in a buffer of their own.
    (ReadsString fun s => strdup (some s)) ∧ (∀ n, ReadsString fun s => strndup (some s) n) ∧
    ReadsString wcsdup ∧
    -- Delimiters of tokens.
    (∀ s cursor, ReadsString (strsep s cursor)) ∧
    (∀ s cursor, ReadsString (strtokR s · cursor)) ∧
    ∀ s cursor, ReadsString (wcstok s · cursor) := by
  refine ⟨readsString_length, readsString_boundedLength, readsString_length,
    readsString_boundedLength, ?_⟩
  -- What a routine answers is made of what the common one answers.
  refine ⟨fun dest => (readsString_copy "strcpy" dest).map _, readsString_copy "stpcpy",
    fun dest n => (readsString_copyWindow dest n).map _,
    fun dest n => (readsString_copyWindow dest n).map _, readsString_append_whole "strcat",
    readsString_append "strncat", readsString_copyCut, readsString_appendCut,
    fun dest => (readsString_copy "wcscpy" dest).map _, readsString_copy "wcpcpy",
    fun dest n => (readsString_copyWindow dest n).map _, readsString_append_whole "wcscat",
    readsString_append "wcsncat", ?_⟩
  refine ⟨readsStrings_compareAll false, readsStrings_compare false,
    readsStrings_compareAll true, readsStrings_compare true,
    (readsStrings_compareAll false).map Int.sign,
    fun n => (readsStrings_compare false n).map Int.sign,
    (readsStrings_compareAll true).map Int.sign,
    fun n => (readsStrings_compare true n).map Int.sign, ?_⟩
  refine ⟨readsString_indexOf, ?_, readsString_lastIndexOf, readsStrings_find false,
    readsStrings_find true, readsStrings_span true, readsStrings_span false,
    readsStrings_indexOfAny, readsString_indexOf, readsString_lastIndexOf, readsStrings_find false,
    readsStrings_span true, readsStrings_span false, readsStrings_indexOfAny, ?_⟩
  · intro c
    apply readsString_of_content
    intro s
    have hindex : indexOf (content s) c = indexOf s c := (readsString_indexOf c s).1
    rw [strchrnul, strchrnul, hindex, (readsString_length s).1]
  exact ⟨(readsString_duplicate 1).map fun copy => copy >>= fun copied => pure (some copied),
    fun n => (readsString_duplicate_bounded 1 n).map fun copy =>
      copy >>= fun copied => pure (some copied),
    readsString_duplicate 4, readsString_separate, readsString_skip, readsString_skip⟩

end CText.CString
