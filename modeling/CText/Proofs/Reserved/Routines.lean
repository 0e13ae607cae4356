import CText.Proofs.Reserved.Escape
import CText.Proofs.Reserved.Path

/-!
# No buffer outgrows its reservation

Every routine that builds a buffer asks for all of it beforehand. What it builds then fits into the
room that it asked for, and so does the buffer at every moment on the way, so that memory can be
refused only where it is asked for.
-/

namespace CText

open CString Escape

namespace Reserved

section

variable {α : Type} [CodeUnit α]

def duplicate (width : Nat) (s : List α) (len : Nat) : Except Mishap (Reserved α) := do
  let b ← allocate α width (← step (checked (Checked.add len 1)))
  let b ← b.extend (← step (checked (Checked.front s len)))
  b.push CodeUnit.nul

theorem keepsTo_duplicate (width : Nat) (s : List α) (len : Nat) :
    KeepsTo (duplicate width s len) (Checked.duplicate width s len) (len + 1) := by
  rw [duplicate, Checked.duplicate]
  cases hsize : Checked.add len 1 with
  | error v => exact .failed _ _
  | ok size =>
    obtain rfl := yields_add _ _ _ hsize
    refine .allocate ?_
    cases hfront : Checked.front s len with
    | error v => exact .failed _ _
    | ok units =>
      have hlen := (Checked.bounds_of_slice hfront).1
      have hunits : ([] ++ units).length ≤ len + 1 := by
        rw [List.nil_append]
        omega
      have hwhole : ([] ++ units ++ [CodeUnit.nul]).length ≤ len + 1 := by
        rw [List.nil_append, List.length_append, List.length_singleton]
        omega
      simp only [Checked.ok_bind, Checked.checked_ok, step_ok]
      rw [extend_eq hunits, Checked.ok_bind, push, extend_eq hwhole]
      exact .of_units rfl

end

end Reserved

/-- A run builds what fits into the room that was asked for, and a buffer of that room is filled with
it, or fails to be as the run does, without ever growing. -/
structure StaysWithin {α : Type} (filled : Except Mishap (Reserved α))
    (run : Except Failure (List α)) (capacity : Nat) : Prop where
  keepsTo : KeepsTo filled run capacity
  ne_outgrown : filled ≠ .error .outgrown
  length_le : ∀ out, run = .ok out → out.length ≤ capacity

theorem KeepsTo.staysWithin {α : Type} {filled : Except Mishap (Reserved α)}
    {run : Except Failure (List α)} {capacity : Nat} (h : KeepsTo filled run capacity) :
    StaysWithin filled run capacity :=
  ⟨h, h.ne_outgrown, fun _ => h.length_le⟩

open Reserved in
/-- What the routines that build a buffer ask for: four bytes for each byte of a string to be
escaped, or one if nothing has to be escaped; the length of a string whose escapes are read; one unit
more than are duplicated; the length of a working directory; what is joined to an absolute path, or
its own length; and three bytes for each step up and the absolute path for a relative one. A request
that is refused names its bytes. -/
theorem buffers_keep_to_reservations :
    (∀ (α : Type) width capacity m, allocate α width capacity = .error m →
      m = .failure (.error (.allocationFailure (min (capacity * width) 18446744073709551615)))) ∧
    (∀ s quote, StaysWithin (escape s quote) (Checked.escape s quote)
      (if isPlain quote (content s) then (content s).length else 4 * (content s).length)) ∧
    (∀ s flags, StaysWithin (unescape s flags) (Checked.unescape s flags) (content s).length) ∧
    (∀ s : List UInt8, StaysWithin (duplicate 1 s (length s)) (Checked.duplicate 1 s (length s))
      (length s + 1)) ∧
    (∀ (s : List UInt8) n, StaysWithin (duplicate 1 s (boundedLength s n))
      (Checked.duplicate 1 s (boundedLength s n)) (boundedLength s n + 1)) ∧
    (∀ s : List UInt32, StaysWithin (duplicate 4 s (length s)) (Checked.duplicate 4 s (length s))
      (length s + 1)) ∧
    (∀ dir, StaysWithin (fixedDirectory dir) (Checked.fixedDirectory dir) (content dir).length) ∧
    (∀ dir file, StaysWithin (join dir file) (Checked.join dir file)
      (dir.length + 1 + file.length)) ∧
    (∀ file reference cwd, StaysWithin (absolute file reference cwd)
      (Checked.absolute file reference cwd) (absoluteRoom file reference cwd)) ∧
    (∀ file reference cwd, StaysWithin (relative file reference cwd)
      (Checked.relative file reference cwd) (relativeRoom file reference cwd)) := by
  refine ⟨fun α width capacity m => allocate_error, ?_, ?_, ?_, ?_, ?_, ?_, ?_, ?_, ?_⟩
  · intro s quote
    have hroom := (keepsTo_escape s quote).staysWithin
    rwa [room, Nat.mul_comm] at hroom
  · exact fun s flags => (keepsTo_unescape s flags).staysWithin
  · exact fun s => (keepsTo_duplicate 1 s _).staysWithin
  · exact fun s n => (keepsTo_duplicate 1 s _).staysWithin
  · exact fun s => (keepsTo_duplicate 4 s _).staysWithin
  · exact fun dir => (keepsTo_fixedDirectory dir).staysWithin
  · exact fun dir file => (keepsTo_join dir file).staysWithin
  · exact fun file reference cwd => (keepsTo_absolute file reference cwd).staysWithin
  · exact fun file reference cwd => (keepsTo_relative file reference cwd).staysWithin

end CText
