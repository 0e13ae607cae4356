import CText.Error

/-!
# Asking for memory

Routines that build a buffer ask for all of it beforehand. A request of more bytes than an object
may have is refused; every smaller one is taken to be granted. What is asked for is a number of
units of a given width, and a refusal names the bytes, cut to the largest 64-bit number.
-/

namespace CText

/-- The largest number of bytes that one buffer can have. -/
def maxReservation : Nat := 9223372036854775807

/-- Asks for room for `capacity` units of `width` bytes each. -/
def reserve (width capacity : Nat) : Except Error Unit :=
  if capacity * width ≤ maxReservation then .ok ()
  else .error (.allocationFailure (min (capacity * width) 18446744073709551615))

theorem reserve_granted {width capacity : Nat} (h : capacity * width ≤ maxReservation) :
    reserve width capacity = .ok () :=
  if_pos h

theorem reserve_refused {width capacity : Nat} (h : ¬ capacity * width ≤ maxReservation) :
    reserve width capacity =
      .error (.allocationFailure (min (capacity * width) 18446744073709551615)) :=
  if_neg h

/-- What is made once memory is granted does not depend on what was asked for. -/
theorem eq_of_reserve_map {α : Type} {width capacity : Nat} {made result : α}
    (h : (reserve width capacity).map (fun _ => made) = .ok result) : made = result := by
  obtain ⟨-, -, hresult⟩ := exists_of_map_eq_ok h
  exact hresult

end CText
