import CText.Checked.CString
import CText.Proofs.Checked.Buffer
import CText.Proofs.Yields

/-!
# Buffers that stay within what was asked for

A buffer is asked for with its room and filled afterwards. Filling it beyond its room would make it
grow behind the back of its builder, and ends a run as a mishap of its own. A run keeps to its
reservation if it builds, in a buffer of the room that was asked for, just what is built without
regard to room, and fails just where that fails.
-/

namespace CText

open Escape

theorem checked_bind {β γ : Type} (x : Except Violation β) (k : β → Except Violation γ) :
    checked (x >>= k) = checked x >>= fun b => checked (k b) := by
  cases x <;> rfl

/-- A buffer with room for so many units, which it never exceeds. -/
structure Reserved (α : Type) where
  capacity : Nat
  units : List α
  fits : units.length ≤ capacity

/-- Why a buffer cannot be filled: there is a failure, or it would have to outgrow its room. -/
inductive Mishap where
  | failure (f : Failure)
  | outgrown

/-- A step on the way in which no buffer is filled. -/
def step {β : Type} : Except Failure β → Except Mishap β
  | .ok b => .ok b
  | .error f => .error (.failure f)

@[simp] theorem step_ok {β : Type} (b : β) : step (.ok b) = .ok b := rfl

namespace Reserved

variable {α : Type}

/-- An empty buffer with room for some units of `width` bytes, if memory is granted. -/
def allocate (α : Type) (width capacity : Nat) : Except Mishap (Reserved α) := do
  step (Checked.granted (reserve width capacity))
  return ⟨capacity, [], Nat.zero_le _⟩

/-- Memory that is asked for is refused with the number of bytes that were asked for. -/
theorem allocate_error {width capacity : Nat} {m : Mishap}
    (h : allocate α width capacity = .error m) :
    m = .failure (.error (.allocationFailure (min (capacity * width) 18446744073709551615))) := by
  by_cases hgranted : capacity * width ≤ maxReservation
  · rw [allocate, reserve_granted hgranted] at h
    cases h
  · rw [allocate, reserve_refused hgranted] at h
    cases h
    rfl

def extend (b : Reserved α) (more : List α) : Except Mishap (Reserved α) :=
  if h : (b.units ++ more).length ≤ b.capacity then .ok ⟨b.capacity, b.units ++ more, h⟩
  else .error .outgrown

def push (b : Reserved α) (a : α) : Except Mishap (Reserved α) := b.extend [a]

/-- The buffer after work in place, which leaves it no longer than it was. -/
def settle (b : Reserved α) (units : List α) : Except Mishap (Reserved α) :=
  if h : units.length ≤ b.units.length then .ok ⟨b.capacity, units, Nat.le_trans h b.fits⟩
  else .error .outgrown

theorem extend_eq {b : Reserved α} {more : List α} (h : (b.units ++ more).length ≤ b.capacity) :
    b.extend more = .ok ⟨b.capacity, b.units ++ more, h⟩ :=
  dif_pos h

theorem extend_eq_of_append {b : Reserved α} {more units : List α} (h : b.units ++ more = units)
    (hfits : units.length ≤ b.capacity) : b.extend more = .ok ⟨b.capacity, units, hfits⟩ := by
  subst h
  exact extend_eq hfits

theorem settle_eq {b : Reserved α} {units : List α} (h : units.length ≤ b.units.length) :
    b.settle units = .ok ⟨b.capacity, units, Nat.le_trans h b.fits⟩ :=
  dif_pos h

end Reserved

/-! ## What a run yields -/

theorem yields_add (a c : Nat) : Yields (· = a + c) (Checked.add a c) := by
  rw [Checked.add, Checked.addBelow]
  split
  · exact yields_ok rfl
  · exact yields_error _

theorem yields_sub (a c : Nat) : Yields (· = a - c) (Checked.sub a c) := by
  rw [Checked.sub]
  split
  · exact yields_ok rfl
  · exact yields_error _

theorem yields_mul (a c : Nat) : Yields (· = a * c) (Checked.mul a c) := by
  rw [Checked.mul, Checked.mulBelow]
  split
  · exact yields_ok rfl
  · exact yields_error _

theorem Yields.checked {β : Type} {P : β → Prop} {x : Except Violation β} (h : Yields P x) :
    Yields P (Escape.checked x) := by
  cases x with
  | ok b => exact yields_ok (h b rfl)
  | error v => exact yields_error _

theorem yields_store {α : Type} (buf : List α) (i : Nat) (a : α) :
    Yields (·.length = buf.length) (Buffer.store buf i a) := by
  rw [Buffer.store]
  split
  · exact yields_ok List.length_set
  · exact yields_error _

theorem yields_take {ε α : Type} (buf : List α) (w : Nat) :
    Yields (·.length ≤ buf.length) (.ok (buf.take w) : Except ε (List α)) :=
  yields_ok (List.length_take_le' _ _)

theorem yields_slice {α : Type} (s : List α) (start stop : Nat) :
    Yields (List.Sublist · s) (Buffer.slice s start stop) := by
  rw [Buffer.slice]
  split
  · exact yields_error _
  · split
    · exact yields_error _
    · split
      · exact yields_error _
      · exact yields_ok ((List.take_sublist _ _).trans (List.drop_sublist _ _))

/-! ## Keeping to a reservation -/

/-- A run that fills a buffer of the given room with what another run builds, or fails as it does. -/
inductive KeepsTo {α : Type} : Except Mishap (Reserved α) → Except Failure (List α) → Nat → Prop
  | filled (b : Reserved α) : KeepsTo (.ok b) (.ok b.units) b.capacity
  | failed (f : Failure) (capacity : Nat) : KeepsTo (.error (.failure f)) (.error f) capacity

section

variable {α β : Type} {filled : Except Mishap (Reserved α)} {run : Except Failure (List α)}
  {capacity : Nat}

/-- What is built has the room that was asked for. -/
theorem KeepsTo.length_le (h : KeepsTo filled run capacity) {out : List α} (hout : run = .ok out) :
    out.length ≤ capacity := by
  cases h with
  | filled b =>
    cases hout
    exact b.fits
  | failed f => cases hout

theorem KeepsTo.ne_outgrown (h : KeepsTo filled run capacity) : filled ≠ .error .outgrown := by
  cases h <;> exact nofun

theorem KeepsTo.bind {x : Except Mishap (Reserved α)} {y : Except Failure (List α)} {room : Nat}
    {k : Reserved α → Except Mishap (Reserved β)} {k' : List α → Except Failure (List β)}
    (h : KeepsTo x y room)
    (hk : ∀ b, y = .ok b.units → b.capacity = room → KeepsTo (k b) (k' b.units) capacity) :
    KeepsTo (x >>= k) (y >>= k') capacity := by
  cases h with
  | filled b => exact hk b rfl rfl
  | failed f => exact .failed f capacity

theorem KeepsTo.step {x : Except Failure β} {k : β → Except Mishap (Reserved α)}
    {k' : β → Except Failure (List α)} (hk : ∀ b, x = .ok b → KeepsTo (k b) (k' b) capacity) :
    KeepsTo (CText.step x >>= k) (x >>= k') capacity := by
  cases x with
  | ok b => exact hk b rfl
  | error f => exact .failed f capacity

theorem KeepsTo.of_units {b : Reserved α} {out : List α} (h : b.units = out) :
    KeepsTo (.ok b) (.ok out) b.capacity := by
  subst h
  exact .filled b

/-- Work in place keeps to a reservation if it makes nothing longer. -/
theorem KeepsTo.settle {b : Reserved α} (h : Yields (·.length ≤ b.units.length) run) :
    KeepsTo (do b.settle (← CText.step run)) run b.capacity := by
  cases run with
  | ok out =>
    have hfits := h out rfl
    rw [step_ok, Checked.ok_bind, Reserved.settle_eq hfits]
    exact .filled ⟨b.capacity, out, Nat.le_trans hfits b.fits⟩
  | error f => exact .failed f _

/-- Work in place, with what is done afterwards. -/
theorem KeepsTo.settle_bind {b : Reserved α} {k : Reserved α → Except Mishap (Reserved β)}
    {k' : List α → Except Failure (List β)} (h : Yields (·.length ≤ b.units.length) run)
    (hk : ∀ b', b'.capacity = b.capacity → KeepsTo (k b') (k' b'.units) capacity) :
    KeepsTo (CText.step run >>= fun units => b.settle units >>= k) (run >>= k') capacity := by
  rw [← bind_assoc]
  exact (KeepsTo.settle h).bind fun b' _ hroom => hk b' hroom

/-- A buffer that is asked for, with what is made of it when it is granted. -/
theorem KeepsTo.allocate {width : Nat} {k : Reserved α → Except Mishap (Reserved α)}
    (hk : KeepsTo (k ⟨capacity, [], Nat.zero_le _⟩) run capacity) :
    KeepsTo (Reserved.allocate α width capacity >>= k)
      (Checked.granted (reserve width capacity) >>= fun _ => run) capacity := by
  rw [Reserved.allocate, bind_assoc]
  exact .step fun _ _ => hk

end

end CText
