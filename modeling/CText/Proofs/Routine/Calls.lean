import CText.Proofs.Checked.CString
import CText.Proofs.Routine.Keeping
import CText.Routine.Basic

/-!
# Calls that break no promise

What a routine does with its inputs is a chain of calls, and each has its part in the judgment: a
call that comes to an answer, a call that fails as the library does, a buffer that can be made, a
destination that has been found large enough.
-/

namespace CText

/-- Sixteen inputs can be counted, and a buffer takes the bytes of almost eight. -/
theorem limits : Checked.countLimit = 16 * inputLimit ∧ maxReservation + 1 = 8 * inputLimit ∧
    16 < inputLimit := by
  decide

theorem Counted.lt_countLimit {α : Type} [DecidableEq α] [CodeUnit α] {s : List α}
    (h : Counted s) : s.length < Checked.countLimit := by
  have hbuffer := h.buffer
  obtain ⟨hcount, -, hsome⟩ := limits
  omega

namespace Routine

open Checked

variable {ε α β : Type}

/-! ## Answers -/

/-- A call that comes to an answer. -/
def Answers (x : Except ε α) : Prop := ∃ a, x = .ok a

theorem Answers.ok (a : α) : Answers (.ok a : Except ε α) := ⟨a, rfl⟩

theorem Answers.bind {x : Except ε α} {a : α} {f : α → Except ε β} (h : x = .ok a)
    (hf : Answers (f a)) : Answers (x >>= f) := by
  rw [h]
  exact hf

theorem answers_mapM {f : α → Except ε β} (hf : ∀ a, Answers (f a)) (items : List α) :
    Answers (items.mapM f) := by
  induction items with
  | nil => exact .ok []
  | cons item items ih =>
    obtain ⟨a, ha⟩ := hf item
    obtain ⟨rest, hrest⟩ := ih
    rw [List.mapM_cons]
    exact .bind ha (.bind hrest (.ok _))

@[simp] theorem kept_ok (a : α) : kept (.ok a) = .ok a := rfl

theorem reads_kept {x : Except Violation α} {a : α} (h : x = .ok a) : Reads (· = a) (kept x) := by
  rw [h]
  rfl

theorem reads_answer {x : Except Violation α} (h : Answers x) : Reads (fun _ => True) (kept x) := by
  obtain ⟨a, rfl⟩ := h
  trivial

/-- A call that fails, if it does, as the library fails. -/
def Settles (x : Except Escape.Failure α) : Prop := ∃ answer, x = granted answer

theorem Settles.granted (answer : Except Error α) : Settles (granted answer) := ⟨answer, rfl⟩

theorem Settles.bind {x : Except Escape.Failure α} {f : α → Except Escape.Failure β}
    (h : Settles x) (hf : ∀ a, Settles (f a)) : Settles (x >>= f) := by
  obtain ⟨answer, rfl⟩ := h
  cases answer with
  | ok a => exact hf a
  | error e => exact ⟨.error e, rfl⟩

theorem Settles.map {x : Except Escape.Failure α} (h : Settles x) (f : α → β) :
    Settles (x.map f) := by
  obtain ⟨answer, rfl⟩ := h
  refine ⟨answer.map f, ?_⟩
  cases answer <;> rfl

theorem settles_checked {x : Except Violation α} (h : Answers x) : Settles (Escape.checked x) := by
  obtain ⟨a, rfl⟩ := h
  exact ⟨.ok a, rfl⟩

theorem reads_settled {answer : Except Escape.Failure String} (h : Settles answer) :
    Reads (fun _ => True) (settled answer) := by
  obtain ⟨answer, rfl⟩ := h
  cases answer <;> trivial

theorem answers_showString (s : List UInt8) : Answers (showString s) := .bind (content_eq s) (.ok _)

theorem answers_showWide (s : List UInt32) : Answers (showWide s) := .bind (content_eq s) (.ok _)

/-! ## Room -/

theorem reads_blank {width n : Nat} (a : α) (h : n * width ≤ maxReservation) :
    Reads (fun dest => dest = List.replicate n a) (blank width a n) := by
  rw [blank, if_pos h]
  rfl

/-- A buffer of bytes can have every size that memory can be asked for. -/
theorem reads_bytes_blank {n : Nat} (b : UInt8) (h : n ≤ maxReservation) :
    Reads (fun dest => dest.length = n) (blank 1 b n) := by
  refine (reads_blank b ((Nat.mul_one n).trans_le h)).mono ?_
  rintro dest rfl
  exact List.length_replicate

theorem answers_blank {n : Nat} (b : UInt8) (h : n ≤ maxReservation) :
    blank 1 b n = .ok (List.replicate n b) :=
  if_pos ((Nat.mul_one n).trans_le h)

theorem reads_requireRoom (needed capacity : Nat) :
    Reads (fun _ => needed ≤ capacity) (requireRoom needed capacity) := by
  unfold requireRoom
  split
  next hroom => exact hroom
  next => trivial

/-- What has the room that it needs comes to an answer; what has not is reported. -/
structure NeedsRoom (reason : Reason) (needed capacity : Nat) (x : Except Trouble α) : Prop where
  refuses : capacity < needed → x = .error (.input "dst_len" reason)
  answers : needed ≤ capacity → Answers x

theorem needsRoom_requireRoom {needed capacity : Nat} {rest : Unit → Except Trouble α}
    (h : needed ≤ capacity → Answers (rest ())) :
    NeedsRoom (.noRoom needed capacity) needed capacity
      (requireRoom needed capacity >>= rest) where
  refuses hshort := congrArg (· >>= rest) (if_neg (Nat.not_le.2 hshort))
  answers hroom := .bind (if_pos hroom) (h hroom)

end Routine

end CText
