import CText.Byte
import CText.Wide
import CText.Proofs.Buffer.Mapping
import CText.Proofs.CString.Building
import CText.Proofs.CString.Mapping
import CText.Proofs.CString.Tokens
import Mathlib.Data.List.Basic

/-!
# Byte strings as wide strings

A routine on wide units does to bytes written as wide units what the routine on bytes does to the
bytes. What makes this so is said of any two kinds of units: no two units are written as the same
one, and the terminator, the small letters and the numbers that are compared stay what they are.

Two things do differ. A comparison of wide strings answers with a sign only, and a copy of a wide
string asks for four times the memory.
-/

namespace CText

/-- The same promise, made to a routine of another name. -/
def Violation.inRoutine (routine : String) : Violation → Violation
  | noRoomToCopy _ room length => noRoomToCopy routine room length
  | noRoomToAppend _ room total => noRoomToAppend routine room total
  | v => v

namespace CString

open Buffer

section

variable {α β : Type} [CodeUnit α] [CodeUnit β]

/-- A way to write units of one kind as units of another that the string routines do not notice. -/
structure Embedding (f : α → β) : Prop where
  injective : Function.Injective f
  nul : f CodeUnit.nul = CodeUnit.nul
  lower : ∀ a, CodeUnit.lower (f a) = f (CodeUnit.lower a)
  signed : ∀ a, CodeUnit.signed (f a) = CodeUnit.signed a

/-- An order as the sign of a difference. -/
def orderSign : Ordering → Int
  | .lt => -1
  | .eq => 0
  | .gt => 1

/-- What a call for a token left behind, in other units. -/
def Cut.inUnits (f : α → β) (c : Cut α) : Cut β := ⟨c.buffer.map f, c.cursor, c.token⟩

namespace Embedding

variable {f : α → β} (hf : Embedding f)

include hf

theorem eq_nul_iff (a : α) : f a = CodeUnit.nul ↔ a = CodeUnit.nul := by
  rw [← hf.nul, hf.injective.eq_iff]

/-- A piece with its terminator, in other units. -/
theorem map_piece (piece : List α) :
    piece.map f ++ [CodeUnit.nul] = (piece ++ [CodeUnit.nul]).map f := by
  rw [List.map_append, List.map_singleton, hf.nul]

theorem carries (folding : Bool) : Carries f folding folding where
  nul := hf.nul
  signed a := by
    have hfold : fold folding (f a) = f (fold folding a) := by
      cases folding with
      | false => rfl
      | true => exact hf.lower a
    rw [hfold, hf.signed]

variable [DecidableEq α] [DecidableEq β]

theorem content_map (s : List α) : content (s.map f) = (content s).map f :=
  (hf.carries false).content_map s

theorem length_map (s : List α) : length (s.map f) = length s := by
  rw [length_eq, length_eq, hf.content_map, List.length_map]

theorem boundedLength_map (s : List α) (n : Nat) : boundedLength (s.map f) n = boundedLength s n := by
  rw [boundedLength_eq, boundedLength_eq, hf.content_map, ← List.map_take, List.length_map]

theorem copy_map (routine wide : String) (dest src : List α) :
    copy wide (dest.map f) (src.map f) =
      ((copy routine dest src).map (inUnits f)).mapError (.inRoutine wide) := by
  rw [copy_eq, copy_eq, hf.content_map, hf.map_piece, overwrite_map, List.length_map,
    List.length_map]
  split <;> rfl

theorem append_map (routine wide : String) (dest src : List α) (n : Nat) :
    append wide (dest.map f) (src.map f) n =
      ((append routine dest src n).map (inUnits f)).mapError (.inRoutine wide) := by
  rw [append_eq, append_eq, hf.content_map, hf.content_map, ← List.map_take, hf.map_piece,
    List.length_map, List.length_map, List.length_map, overwrite_map]
  split <;> rfl

theorem copyWindow_map (dest src : List α) (n : Nat) :
    copyWindow (dest.map f) (src.map f) n = inUnits f (copyWindow dest src n) := by
  rw [copyWindow_eq, copyWindow_eq, hf.content_map, List.length_map, ← List.map_take,
    List.length_map, ← hf.nul, ← List.map_replicate, ← List.map_append, overwrite_map]
  rfl

theorem compare_map (folding : Bool) (n : Nat) (s t : List α) :
    compare folding n (s.map f) (t.map f) = compare folding n s t :=
  (hf.carries folding).compare_map n s t

theorem compareAll_map (folding : Bool) (s t : List α) :
    compareAll folding (s.map f) (t.map f) = compareAll folding s t :=
  (hf.carries folding).compareAll_map s t

theorem indexOf_map (s : List α) (c : α) : indexOf (s.map f) (f c) = indexOf s c := by
  rw [indexOf, indexOf, hf.length_map, scanForward_map hf.injective]
  simp only [hf.eq_nul_iff]

theorem lastIndexOf_map (s : List α) (c : α) : lastIndexOf (s.map f) (f c) = lastIndexOf s c := by
  rw [lastIndexOf, lastIndexOf, hf.length_map, scanBackward_map hf.injective]
  simp only [hf.eq_nul_iff]

theorem isDelimiter_map (delims : List α) (u : α) :
    isDelimiter (delims.map f) (f u) = isDelimiter delims u := by
  rw [isDelimiter, isDelimiter, hf.content_map, List.contains_eq_mem, List.contains_eq_mem]
  exact decide_eq_decide.2 (List.mem_map_of_injective hf.injective)

theorem span_map (s set : List α) (within : Bool) :
    span (s.map f) (set.map f) within = span s set within := by
  rw [span_eq_findIdx, span_eq_findIdx, hf.content_map, List.findIdx_map]
  congr 1
  funext u
  rw [Function.comp_apply, hf.isDelimiter_map]

theorem indexOfAny_map (s set : List α) : indexOfAny (s.map f) (set.map f) = indexOfAny s set := by
  rw [indexOfAny, indexOfAny, hf.span_map, hf.length_map]

theorem find_map (folding : Bool) (hay needle : List α) :
    find folding (hay.map f) (needle.map f) = find folding hay needle :=
  (hf.carries folding).find_map hay needle

theorem separate_map (s delims : List α) (cursor : Option Nat) :
    separate (s.map f) cursor (delims.map f) = (separate s cursor delims).inUnits f := by
  cases cursor with
  | none => rfl
  | some pos =>
    rw [separate_eq, separate_eq, ← List.map_drop, hf.span_map, hf.length_map]
    split
    · rw [← hf.nul, ← List.map_set]
      rfl
    · rfl

theorem skip_map (s delims : List α) (cursor : Option Nat) :
    skip (s.map f) cursor (delims.map f) = (skip s cursor delims).inUnits f := by
  cases cursor with
  | none => rfl
  | some pos =>
    have hlead : span ((s.map f).drop pos) (delims.map f) true = span (s.drop pos) delims true := by
      rw [← List.map_drop, hf.span_map]
    rw [skip_eq, skip_eq, hlead, ← List.map_drop, hf.length_map]
    split
    · rfl
    · exact hf.separate_map s delims _

/-- The order of two buffers as a sign, where units compare as the numbers they are. -/
theorem compareSigned_map (hvalue : ∀ a : α, CodeUnit.signed a = CodeUnit.value a)
    (s t : List α) (n : Nat) :
    compareSigned (s.map f) (t.map f) n = orderSign (compareUnsigned s t n) := by
  rw [compareSigned, compareUnsigned, ← List.map_take, ← List.map_take,
    firstDifference_map hf.injective]
  cases hdiff : firstDifference (s.take n) (t.take n) with
  | none => rfl
  | some pair =>
    obtain ⟨a, b⟩ := pair
    have hne : CodeUnit.value a ≠ CodeUnit.value b :=
      fun h => ne_of_firstDifference hdiff (CodeUnit.value_injective a b h)
    simp only [Option.map_some, Prod.map_apply, hf.signed, hvalue, Int.ofNat_lt]
    obtain hlt | hgt := Nat.lt_or_gt_of_ne hne
    · rw [if_pos hlt, Nat.compare_eq_lt.2 hlt]
      rfl
    · rw [if_neg (Nat.lt_asymm hgt), Nat.compare_eq_gt.2 hgt]
      rfl

end Embedding

end

theorem widen_toNat (a : UInt8) : (widen a).toNat = a.toNat :=
  UInt8.toNat_toUInt32 a

theorem embedding_widen : Embedding widen where
  injective a b h := by
    apply UInt8.toNat_inj.1
    rw [← widen_toNat, h, widen_toNat]
  nul := rfl
  lower := byte_induction (by decide)
  signed a := by
    have hlt := a.toNat_lt
    change signedWide (widen a) = (a.toNat : Int)
    rw [signedWide, widen_toNat, if_pos (by omega)]

open Byte Wide

/-- Each routine on wide units does to widened bytes what its namesake does to the bytes: it gives
the same answer, the same buffer widened, or breaks the same promise, told under its own name. Of
a comparison it gives the sign. A copy in a buffer of its own is the same copy, if the memory asked
for is granted, and it asks for four bytes where its namesake asks for one. -/
theorem wide_routines_widen :
    -- Lengths.
    (∀ s, wcslen (s.map widen) = strlen s) ∧
    (∀ s n, wcsnlen (s.map widen) n = strnlen s n) ∧
    -- Copies to a buffer and what joins to it.
    (∀ dest src, wcscpy (dest.map widen) (src.map widen) =
      ((strcpy dest src).map (inUnits widen)).mapError (.inRoutine "wcscpy")) ∧
    (∀ dest src, wcpcpy (dest.map widen) (src.map widen) =
      ((stpcpy dest src).map (inUnits widen)).mapError (.inRoutine "wcpcpy")) ∧
    (∀ dest src n, wcsncpy (dest.map widen) (src.map widen) n =
      inUnits widen (strncpy dest src n)) ∧
    (∀ dest src, wcscat (dest.map widen) (src.map widen) =
      ((strcat dest src).map (inUnits widen)).mapError (.inRoutine "wcscat")) ∧
    (∀ dest src n, wcsncat (dest.map widen) (src.map widen) n =
      ((strncat dest src n).map (inUnits widen)).mapError (.inRoutine "wcsncat")) ∧
    -- Comparisons.
    (∀ s t, wcscmp (s.map widen) (t.map widen) = (strcmp s t).sign) ∧
    (∀ s t n, wcsncmp (s.map widen) (t.map widen) n = (strncmp s t n).sign) ∧
    (∀ s t, wcscasecmp (s.map widen) (t.map widen) = (strcasecmp s t).sign) ∧
    (∀ s t n, wcsncasecmp (s.map widen) (t.map widen) n = (strncasecmp s t n).sign) ∧
    -- Searches.
    (∀ s c, wcschr (s.map widen) (widen c) = strchr s c) ∧
    (∀ s c, wcsrchr (s.map widen) (widen c) = strrchr s c) ∧
    (∀ hay needle, wcsstr (hay.map widen) (needle.map widen) = strstr hay needle) ∧
    (∀ s accept, wcsspn (s.map widen) (accept.map widen) = strspn s accept) ∧
    (∀ s reject, wcscspn (s.map widen) (reject.map widen) = strcspn s reject) ∧
    (∀ s accept, wcspbrk (s.map widen) (accept.map widen) = strpbrk s accept) ∧
    -- Copies in a buffer of their own, and tokens.
    (∀ s, ∃ copied,
      strdup (some s) = (reserve 1 (strlen s + 1)).map (fun _ => some copied) ∧
      wcsdup (s.map widen) = (reserve 4 (strlen s + 1)).map fun _ => copied.map widen) ∧
    (∀ s delims cursor, wcstok (s.map widen) (delims.map widen) cursor =
      (strtokR s delims cursor).inUnits widen) ∧
    -- Buffers.
    (∀ dest src n, wmemcpy (dest.map widen) (src.map widen) n =
      inUnits widen (memcpy dest src n)) ∧
    (∀ dest src n, wmempcpy (dest.map widen) (src.map widen) n =
      inUnits widen (mempcpy dest src n)) ∧
    (∀ buf dest src n, wmemmove (buf.map widen) dest src n =
      (memmove buf dest src n).map (inUnits widen)) ∧
    (∀ dest c n, wmemset (dest.map widen) (widen c) n = inUnits widen (memset dest c n)) ∧
    (∀ s c n, wmemchr (s.map widen) (widen c) n = memchr s c n) ∧
    (∀ s c n, wmemrchr (s.map widen) (widen c) n = memrchr s c n) ∧
    ∀ s t n, wmemcmp (s.map widen) (t.map widen) n = orderSign (memcmp s t n) := by
  have hw := embedding_widen
  refine ⟨hw.length_map, hw.boundedLength_map, ?_⟩
  refine ⟨?strcpy, hw.copy_map "stpcpy" "wcpcpy", ?strncpy, ?strcat,
    hw.append_map "strncat" "wcsncat", ?_⟩
  case strcpy =>
    intro dest src
    rw [wcscpy, strcpy, hw.copy_map "strcpy" "wcscpy"]
    cases copy "strcpy" dest src <;> rfl
  case strncpy =>
    intro dest src n
    rw [wcsncpy, hw.copyWindow_map]
    rfl
  case strcat =>
    intro dest src
    rw [wcscat, List.length_map]
    exact hw.append_map "strcat" "wcscat" dest src src.length
  refine ⟨fun s t => congrArg Int.sign (hw.compareAll_map false s t),
    fun s t n => congrArg Int.sign (hw.compare_map false n s t),
    fun s t => congrArg Int.sign (hw.compareAll_map true s t),
    fun s t n => congrArg Int.sign (hw.compare_map true n s t), ?_⟩
  refine ⟨hw.indexOf_map, hw.lastIndexOf_map, hw.find_map false, fun s set => hw.span_map s set true,
    fun s set => hw.span_map s set false, hw.indexOfAny_map, ?strdup, hw.skip_map, ?_⟩
  case strdup =>
    intro s
    refine ⟨content s ++ [CodeUnit.nul], ?_, ?_⟩
    · have hbyte : strdup (some s) = (duplicate 1 s (length s)).map some := by
        rw [strdup, Option.mapM_some]
        cases duplicate 1 s (length s) <;> rfl
      rw [hbyte, duplicate_whole, strlen, length_eq]
      cases reserve 1 ((content s).length + 1) <;> rfl
    · rw [wcsdup, duplicate_whole, hw.content_map, hw.map_piece, List.length_map, strlen, length_eq]
  exact ⟨copyDisjoint_map, copyDisjoint_map, copyOverlapping_map, fill_map,
    scanForward_map hw.injective, scanBackward_map hw.injective,
    hw.compareSigned_map fun _ => rfl⟩

end CString

end CText
