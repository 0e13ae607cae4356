import CText.Byte
import CText.Proofs.Routine.Calls
import CText.Routine.Strings
import CText.Routine.WideStrings

/-!
# Destinations

A routine that copies or joins strings works out the room that its destination needs, and the call
that follows counts on it. A size that a case gives is held against that room first, so the call
never finds its destination too small; a size that is not given is the room itself.
-/

namespace CText.Routine

open Byte Checked Inputs

/-! ## Strings in destinations -/

section

variable {α : Type} [DecidableEq α] [CodeUnit α] {dest src : List α}

theorem exists_copy (name : String) (h : CString.length src < dest.length) :
    ∃ answer, copy name dest src = .ok answer := by
  rw [copy_eq, CString.copy]
  exact ⟨_, if_pos h⟩

theorem exists_copyAll (name : String) (h : CString.length src < dest.length)
    (hlimit : dest.length ≤ maxReservation) : ∃ answer, copyAll name dest src = .ok answer := by
  obtain ⟨hcount, hroom, hsome⟩ := limits
  rw [copyAll_eq name dest src (by omega), CString.copy]
  exact ⟨_, congrArg (Except.map _) (if_pos h)⟩

theorem exists_append (name : String) {n : Nat}
    (h : CString.length dest + CString.boundedLength src n < dest.length)
    (hdest : dest.length ≤ maxReservation) (hsrc : src.length ≤ inputLimit) :
    ∃ answer, append name dest src n = .ok answer := by
  obtain ⟨hcount, hroom, hsome⟩ := limits
  rw [append_eq name n (by omega), CString.append]
  exact ⟨_, if_pos h⟩

theorem boundedLength_length (s : List α) :
    CString.boundedLength s s.length = CString.length s := by
  rw [CString.boundedLength_eq, CString.length_eq,
    List.take_of_length_le (CString.content_length_le s)]

/-- A buffer that is cut or filled up behind its string keeps the string. -/
theorem resized (s : List α) {size : Nat} (h : CString.length s < size) :
    (s.take size ++ List.replicate (size - s.length) CodeUnit.nul).length = size ∧
      CString.length (s.take size ++ List.replicate (size - s.length) CodeUnit.nul) =
        CString.length s := by
  constructor
  · rw [List.length_append, List.length_take, List.length_replicate]
    omega
  · rw [CString.length_eq] at h
    rw [CString.length_eq, CString.content_append_nuls, CString.content_take,
      List.take_of_length_le h.le, CString.length_eq]

/-- A string written over the start of an empty buffer is the string of the buffer. -/
theorem overwrite_nuls (s : List α) {capacity : Nat} (h : CString.length s < capacity) :
    let made := Buffer.overwrite (List.replicate capacity CodeUnit.nul) 0 (CString.content s)
    made.length = capacity ∧ CString.length made = CString.length s := by
  intro made
  rw [CString.length_eq] at h
  have hpiece : 0 + (CString.content s).length ≤
      (List.replicate capacity (CodeUnit.nul : α)).length := by
    rw [List.length_replicate]
    omega
  constructor
  · rw [Buffer.length_overwrite hpiece, List.length_replicate]
  · have hmade : made = CString.content s ++
        List.replicate (capacity - (CString.content s).length) CodeUnit.nul := by
      change Buffer.overwrite _ _ _ = _
      rw [Buffer.overwrite, List.take_zero, List.nil_append, Nat.zero_add, List.drop_replicate]
    rw [hmade, CString.length_eq, CString.content_append_nuls, CString.content_content,
      CString.length_eq]

end

theorem answers_strcpy {dest src : List UInt8} (h : CString.length src < dest.length)
    (hlimit : dest.length ≤ maxReservation) :
    Answers (copyAll "strcpy" dest src >>= fun copied => showString copied.1) := by
  obtain ⟨copied, hcopied⟩ := exists_copyAll "strcpy" h hlimit
  exact .bind hcopied (answers_showString copied.1)

theorem answers_stpcpy {dest src : List UInt8} (h : CString.length src < dest.length) :
    Answers (copy "stpcpy" dest src >>= fun copied => return toString copied.2) := by
  obtain ⟨copied, hcopied⟩ := exists_copy "stpcpy" h
  exact .bind hcopied (.ok _)

variable {inputs : Json} {name field : String} {src start : List UInt8} {capacity : Nat}

/-- A destination that is large enough is made with the string in it. -/
theorem exists_destination (hstart : cstring inputs field = .ok start)
    (hroom : CString.length start < capacity) (hlimit : capacity ≤ maxReservation) :
    ∃ dest, destination inputs field capacity = .ok dest ∧ dest.length = capacity ∧
      CString.length dest = CString.length start := by
  have hpiece : 0 + (CString.content start).length = CString.length start := by
    rw [CString.length_eq, Nat.zero_add]
  have hblank : (List.replicate capacity (0 : UInt8)).length = capacity := List.length_replicate
  have hwritten : (front start (CString.length start) >>=
      replace (List.replicate capacity 0) 0 (CString.length start)) =
      .ok (Buffer.overwrite (List.replicate capacity 0) 0 (CString.content start)) := by
    rw [front_eq (CString.length_le start), ok_bind, CString.take_length,
      replace_eq hpiece (by omega)]
  refine ⟨_, ?_, overwrite_nuls start hroom⟩
  rw [destination, hstart, ok_bind, length_eq, kept_ok, ok_bind, if_neg (Nat.not_le.2 hroom),
    answers_blank 0 hlimit, ok_bind, hwritten, kept_ok]
  rfl

theorem destination_refuses (hstart : cstring inputs field = .ok start)
    (h : capacity ≤ CString.length start) :
    destination inputs field capacity = .error (.input "dst_len" .shortDestination) := by
  rw [destination, hstart, ok_bind, length_eq, kept_ok, ok_bind]
  exact if_pos h

theorem reads_destination (held : Held inputs) (h : capacity ≤ maxReservation) :
    Reads (fun dest => dest.length = capacity ∧ ∀ start, cstring inputs field = .ok start →
      CString.length dest = CString.length start) (destination inputs field capacity) := by
  cases hstart : cstring inputs field with
  | error trouble =>
    rw [destination, hstart]
    cases trouble with
    | input field reason => trivial
    | violation v => exact (reads_cstring held field).of_eq_violation hstart
  | ok start =>
    rcases Nat.lt_or_ge (CString.length start) capacity with hroom | hshort
    · obtain ⟨dest, hdest, hlen, hstring⟩ := exists_destination hstart hroom h
      rw [hdest]
      refine ⟨hlen, ?_⟩
      intro other hother
      cases hother
      exact hstring
    · rw [destination_refuses hstart hshort]
      trivial

/-! ## Sizes that cases give -/

/-- The size of a destination or, if it is not given, of the window that is copied into. -/
def windowSize? (inputs : Json) : Option Nat :=
  match present? inputs "dst_len" with
  | some j => j.nat?
  | none => number? inputs "n"

/-- The size that a case gives for the buffer of a routine. -/
def namedSize? (inputs : Json) : (function : String) → Option Nat
  | "strncpy" | "stpncpy" | "memccpy" => windowSize? inputs
  | "strcpy" | "stpcpy" | "strcat" | "strncat" | "strlcpy" | "strlcat" | "memcpy" | "memset" =>
    number? inputs "dst_len"
  | _ => none

/-- The buffer of the size that a case gives can be made. -/
def Allocatable (inputs : Json) (function : String) : Prop :=
  ∀ n, namedSize? inputs function = some n → n ≤ maxReservation

def Sized (inputs : Json) : Prop := ∀ n, number? inputs "dst_len" = some n → n ≤ maxReservation

theorem reads_windowSize {n : Nat} (hn : number? inputs "n" = some n) :
    Reads (fun capacity => windowSize? inputs = some capacity) (countOr inputs "dst_len" n) := by
  refine (reads_countOr inputs "dst_len" n).mono ?_
  rintro capacity (hgiven | ⟨hnone, rfl⟩)
  · rw [number?_eq] at hgiven
    obtain ⟨j, hj, hnat⟩ := Option.bind_eq_some_iff.1 hgiven
    rw [windowSize?, hj]
    exact hnat
  · rw [windowSize?, hnone]
    exact hn

theorem reads_capacity {needed : Nat} (hsize : Sized inputs) (h : needed ≤ maxReservation) :
    Reads (fun capacity => capacity ≤ maxReservation) (countOr inputs "dst_len" needed) := by
  refine (reads_countOr inputs "dst_len" needed).mono ?_
  rintro capacity (hgiven | ⟨-, rfl⟩)
  · exact hsize capacity hgiven
  · exact h

/-! ## Copying -/

theorem length_succ_eq {α : Type} [DecidableEq α] [CodeUnit α] {s : List α} (h : Counted s) :
    (length s >>= fun len => add len 1) = .ok (CString.length s + 1) := by
  have hlen := h.length_lt
  obtain ⟨hcount, hroom, hsome⟩ := limits
  rw [length_eq, ok_bind, add_eq (by omega)]

/-- The room is there, whether the case gives the size or the size is what is needed. -/
theorem reads_ofCopy {call : List UInt8 → List UInt8 → Except Violation (List UInt8 × Nat)}
    {shown : List UInt8 × Nat → Except Violation String} (held : Held inputs)
    (hsize : Sized inputs)
    (hcall : ∀ dest src, CString.length src < dest.length → dest.length ≤ maxReservation →
      Answers (call dest src >>= shown)) :
    Reads (fun _ => True) ((ofCopy name call shown).run inputs) := by
  refine (reads_cstring held "src").bind ?_
  intro src hsrc
  refine (reads_kept (length_succ_eq hsrc)).bind ?_
  rintro needed rfl
  have hlen := hsrc.length_lt
  obtain ⟨hcount, hmax, hsome⟩ := limits
  refine (reads_capacity hsize (by omega)).bind ?_
  intro capacity hcapacity
  refine (reads_requireRoom _ capacity).bind ?_
  intro _ hroom
  refine (reads_bytes_blank 0 hcapacity).bind ?_
  rintro dest rfl
  exact (reads_answer (hcall dest src hroom hcapacity)).bind fun _ _ => trivial

/-- What is left to do once the string and the size are known. -/
theorem ofCopy_run {call : List UInt8 → List UInt8 → Except Violation (List UInt8 × Nat)}
    {shown : List UInt8 × Nat → Except Violation String} (held : Held inputs)
    (hsrc : cstring inputs "src" = .ok src)
    (hcapacity : countOr inputs "dst_len" (CString.length src + 1) = .ok capacity) :
    (ofCopy name call shown).run inputs = (do
      requireRoom (CString.length src + 1) capacity
      let dest ← blank 1 0 capacity
      return .ok (← kept (call dest src >>= shown))) := by
  have hneeded := length_succ_eq ((reads_cstring held "src").of_eq_ok hsrc)
  change (cstring inputs "src" >>= _) = _
  rw [hsrc, ok_bind, hneeded, kept_ok, ok_bind, hcapacity]
  rfl

theorem needsRoom_ofCopy {call : List UInt8 → List UInt8 → Except Violation (List UInt8 × Nat)}
    {shown : List UInt8 × Nat → Except Violation String} (held : Held inputs)
    (hsize : Sized inputs)
    (hcall : ∀ dest src, CString.length src < dest.length → dest.length ≤ maxReservation →
      Answers (call dest src >>= shown)) (hsrc : cstring inputs "src" = .ok src)
    (hcapacity : countOr inputs "dst_len" (CString.length src + 1) = .ok capacity) :
    NeedsRoom (.noRoom (CString.length src + 1) capacity) (CString.length src + 1) capacity
      ((ofCopy name call shown).run inputs) := by
  have hlen := ((reads_cstring held "src").of_eq_ok hsrc).length_lt
  obtain ⟨hcount, hmax, hsome⟩ := limits
  have hlimit := (reads_capacity hsize (by omega)).of_eq_ok hcapacity
  have hblank : (List.replicate capacity (0 : UInt8)).length = capacity := List.length_replicate
  rw [ofCopy_run held hsrc hcapacity]
  refine needsRoom_requireRoom fun hroom => .bind (answers_blank 0 hlimit) ?_
  obtain ⟨text, htext⟩ := hcall _ src (hroom.trans hblank.ge) (hblank.trans_le hlimit)
  exact .bind (congrArg kept htext) (.ok _)

theorem reads_ofWindow {shown : List UInt8 × CString.Window → String} (held : Held inputs)
    (hsize : ∀ n, windowSize? inputs = some n → n ≤ maxReservation) :
    Reads (fun _ => True) ((ofWindow name shown).run inputs) := by
  refine (reads_cstring held "src").bind ?_
  intro src _
  refine (reads_count inputs "n").bind ?_
  intro n hn
  refine (reads_windowSize hn).bind ?_
  intro capacity hcapacity
  refine (reads_bytes_blank 0xFF (hsize capacity hcapacity)).bind ?_
  intro dest _
  exact (reads_kept (copyWindow_eq dest src n)).bind fun _ _ => trivial

theorem reads_runCutCopy (held : Held inputs) (hsize : Sized inputs) :
    Reads (fun _ => True) (runCutCopy inputs) := by
  refine (reads_cstring held "src").bind ?_
  intro src _
  refine (reads_count inputs "dst_len").bind ?_
  intro capacity hcapacity
  refine (reads_bytes_blank 0 (hsize capacity hcapacity)).bind ?_
  intro dest _
  refine (reads_kept (copyCut_eq dest src)).bind ?_
  intro cut _
  exact (reads_answer (answers_showString cut.1)).bind fun _ _ => trivial

theorem reads_runWideCopy (held : Held inputs) : Reads (fun _ => True) (runWideCopy inputs) := by
  refine (reads_wide held "src").bind ?_
  intro src hsrc
  refine (reads_kept (length_succ_eq hsrc)).bind ?_
  rintro needed rfl
  have hlen := hsrc.length_lt
  obtain ⟨hcount, hmax, hsome⟩ := limits
  refine (reads_blank 0 (show (CString.length src + 1) * 4 ≤ maxReservation by omega)).bind ?_
  intro dest hdest
  have hroom : dest.length = CString.length src + 1 := by
    rw [hdest, List.length_replicate]
  have hfits : CString.length src < dest.length := by
    omega
  obtain ⟨copied, hcopied⟩ := exists_copyAll "wcscpy" hfits (by omega)
  refine (reads_kept hcopied).bind ?_
  intro answer _
  exact (reads_answer (answers_showWide answer.1)).bind fun _ _ => trivial

/-! ## Joining -/

theorem joinedLength_eq (bound : Option Nat) (src : List UInt8) :
    joinedLength bound src = .ok (CString.boundedLength src (bound.getD src.length)) := by
  cases bound with
  | some n => exact boundedLength_eq src n
  | none => exact (length_eq src).trans (congrArg _ (boundedLength_length src).symm)

theorem joined_succ_eq {start added : Nat} (hstart : start < inputLimit)
    (hadded : added ≤ inputLimit) :
    (add start added >>= fun total => add total 1) = .ok (start + added + 1) := by
  obtain ⟨hcount, hroom, hsome⟩ := limits
  rw [add_eq (by omega), ok_bind, add_eq (by omega)]

theorem reads_runAppend {bound : Option Nat} (held : Held inputs) (hsrc : Counted src)
    (hsize : Sized inputs) : Reads (fun _ => True) (runAppend name bound src inputs) := by
  refine (reads_cstring held "dest").value.bind ?_
  rintro start ⟨hstart, hread⟩
  refine (reads_kept (length_eq start)).bind ?_
  rintro len rfl
  refine (reads_kept (joinedLength_eq bound src)).bind ?_
  generalize bound.getD src.length = n
  rintro added rfl
  have hlen := hstart.length_lt
  have hadded := boundedLength_le src n
  have hbuffer := hsrc.buffer
  refine (reads_kept (joined_succ_eq hlen (hadded.trans hbuffer))).bind ?_
  rintro needed rfl
  obtain ⟨hcount, hmax, hsome⟩ := limits
  refine (reads_capacity hsize (by omega)).bind ?_
  intro capacity hcapacity
  refine (reads_requireRoom _ capacity).bind ?_
  intro _ hroom
  refine (reads_destination held hcapacity).bind ?_
  rintro dest ⟨hdest, hsame⟩
  have hstring := hsame start hread
  have hfits : CString.length dest + CString.boundedLength src n < dest.length := by
    omega
  obtain ⟨joined, hjoined⟩ := exists_append name hfits (hdest.trans_le hcapacity) hbuffer
  refine (reads_kept hjoined).bind ?_
  intro answer _
  exact (reads_answer (answers_showString answer.1)).bind fun _ _ => trivial

/-- What is left to do once the strings and the size are known. -/
theorem runAppend_run {bound : Option Nat} {added : Nat} (held : Held inputs)
    (hstart : cstring inputs "dest" = .ok start) (hadded : joinedLength bound src = .ok added)
    (hle : added ≤ inputLimit)
    (hcapacity : countOr inputs "dst_len" (CString.length start + added + 1) = .ok capacity) :
    runAppend name bound src inputs = (do
      requireRoom (CString.length start + added + 1) capacity
      let dest ← destination inputs "dest" capacity
      let (joined, _) ← kept (append name dest src (bound.getD src.length))
      return .ok (← kept (showString joined))) := by
  have hlen := ((reads_cstring held "dest").of_eq_ok hstart).length_lt
  rw [runAppend, hstart, ok_bind, length_eq, kept_ok, ok_bind, hadded, kept_ok, ok_bind,
    joined_succ_eq hlen hle, kept_ok, ok_bind, hcapacity]
  rfl

theorem needsRoom_runAppend {bound : Option Nat} {added : Nat} (held : Held inputs)
    (hsize : Sized inputs) (hsrc : Counted src) (hstart : cstring inputs "dest" = .ok start)
    (hadded : joinedLength bound src = .ok added)
    (hcapacity : countOr inputs "dst_len" (CString.length start + added + 1) = .ok capacity) :
    NeedsRoom (.noRoom (CString.length start + added + 1) capacity)
      (CString.length start + added + 1) capacity (runAppend name bound src inputs) := by
  have hlen := ((reads_cstring held "dest").of_eq_ok hstart).length_lt
  have hbuffer := hsrc.buffer
  obtain rfl := Except.ok.inj (hadded.symm.trans (joinedLength_eq bound src))
  have hle := boundedLength_le src (bound.getD src.length)
  obtain ⟨hcount, hmax, hsome⟩ := limits
  have hlimit := (reads_capacity hsize (by omega)).of_eq_ok hcapacity
  rw [runAppend_run held hstart hadded (hle.trans hbuffer) hcapacity]
  refine needsRoom_requireRoom fun h => ?_
  obtain ⟨made, hmade, hroom, hstring⟩ := exists_destination hstart (by omega) hlimit
  have hfits : CString.length made + CString.boundedLength src (bound.getD src.length) <
      made.length := by
    omega
  obtain ⟨joined, hjoined⟩ := exists_append name hfits (hroom.trans_le hlimit) hbuffer
  obtain ⟨text, htext⟩ := answers_showString joined.1
  exact .bind hmade (.bind (congrArg kept hjoined) (.bind (congrArg kept htext) (.ok _)))

theorem reads_runCutAppend (held : Held inputs) (hsize : Sized inputs) :
    Reads (fun _ => True) (runCutAppend inputs) := by
  refine (reads_cstring held "src").bind ?_
  intro src hsrc
  refine (reads_count inputs "dst_len").bind ?_
  intro capacity hcapacity
  have hfits := hsize capacity hcapacity
  refine (reads_destination held hfits).bind ?_
  rintro dest ⟨hdest, -⟩
  have hbuffer := hsrc.buffer
  obtain ⟨hcount, hmax, hsome⟩ := limits
  refine (reads_kept (appendCut_eq (show dest.length + src.length < countLimit by omega))).bind ?_
  intro joined _
  exact (reads_answer (answers_showString joined.1)).bind fun _ _ => trivial

/-- A string is cut to the room there is, but the one in front of it is not. -/
theorem needsRoom_runCutAppend (held : Held inputs) (hsize : Sized inputs)
    (hsrc : cstring inputs "src" = .ok src) (hstart : cstring inputs "dest" = .ok start)
    (hcapacity : number? inputs "dst_len" = some capacity) :
    NeedsRoom .shortDestination (CString.length start + 1) capacity (runCutAppend inputs) := by
  have hbuffer := ((reads_cstring held "src").of_eq_ok hsrc).buffer
  have hlimit := hsize capacity hcapacity
  obtain ⟨hcount, hmax, hsome⟩ := limits
  rw [runCutAppend, hsrc, ok_bind, count_eq hcapacity, ok_bind]
  constructor
  · intro hshort
    exact congrArg (· >>= _) (destination_refuses hstart (Nat.lt_succ_iff.1 hshort))
  · intro hroom
    obtain ⟨made, hmade, hlen, -⟩ := exists_destination hstart hroom hlimit
    have hjoined := appendCut_eq (show made.length + src.length < countLimit by omega)
    obtain ⟨text, htext⟩ := answers_showString (CString.appendCut made src).1
    exact .bind hmade (.bind (congrArg kept hjoined) (.bind (congrArg kept htext) (.ok _)))

theorem reads_runWideAppend (held : Held inputs) :
    Reads (fun _ => True) (runWideAppend inputs) := by
  refine (reads_wide held "dest").bind ?_
  intro start hstart
  refine (reads_wide held "src").bind ?_
  intro src hsrc
  have hfirst := hstart.length_lt
  have hsecond := hsrc.length_lt
  have hneeded : (length start >>= fun first => length src >>= fun second =>
      add first second >>= fun total => add total 1) =
      .ok (CString.length start + CString.length src + 1) := by
    rw [length_eq, ok_bind, length_eq, ok_bind, joined_succ_eq hfirst hsecond.le]
  refine (reads_kept hneeded).bind ?_
  rintro size rfl
  generalize hsize : CString.length start + CString.length src + 1 = size
  obtain ⟨hcount, hmax, hsome⟩ := limits
  refine (reads_blank 0 (show (size - start.length) * 4 ≤ maxReservation by omega)).bind ?_
  rintro filling rfl
  obtain ⟨hdest, hstring⟩ := resized start (show CString.length start < size by omega)
  generalize hmade : start.take size ++ List.replicate (size - start.length) CodeUnit.nul = dest
    at hdest hstring
  have hadded := boundedLength_length src
  have hfits : CString.length dest + CString.boundedLength src src.length < dest.length := by
    omega
  obtain ⟨joined, hjoined⟩ := exists_append "wcscat" hfits (by omega) hsrc.buffer
  refine (reads_kept hjoined).bind ?_
  intro answer _
  exact (reads_answer (answers_showWide answer.1)).bind fun _ _ => trivial

end CText.Routine
