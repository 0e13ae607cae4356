import CText.Escape.InPlace

/-!
# Steps that can go wrong

Offsets and lengths are counts of 64 bits. A result that its width cannot hold is a violation, and
so is everything that is promised and not kept on the way to an answer. An answer that is an error
is kept apart from them.
-/

namespace CText.Checked

open Escape

/-- The first number that is no count. -/
def countLimit : Nat := 18446744073709551616

/-- A sum that has to stay below a limit. -/
def addBelow (limit a b : Nat) : Except Violation Nat :=
  if a + b < limit then .ok (a + b) else .error (.overflow .addition)

def mulBelow (limit a b : Nat) : Except Violation Nat :=
  if a * b < limit then .ok (a * b) else .error (.overflow .multiplication)

def add (a b : Nat) : Except Violation Nat := addBelow countLimit a b

def mul (a b : Nat) : Except Violation Nat := mulBelow countLimit a b

def sub (a b : Nat) : Except Violation Nat :=
  if b ≤ a then .ok (a - b) else .error (.overflow .subtraction)

/-- Counts an answer that is an error as a failure. -/
def granted {α : Type} : Except Error α → Except Failure α
  | .ok a => .ok a
  | .error e => .error (.error e)

@[simp] theorem ok_bind {ε α β : Type} (a : α) (f : α → Except ε β) : (Except.ok a >>= f) = f a :=
  rfl

@[simp] theorem checked_ok {α : Type} (a : α) : checked (.ok a) = .ok a := rfl

@[simp] theorem granted_ok {α : Type} (a : α) : granted (.ok a) = .ok a := rfl

theorem granted_bind {α β : Type} (x : Except Error α) (f : α → Except Error β) :
    granted (x >>= f) = granted x >>= fun a => granted (f a) := by
  cases x <;> rfl

theorem addBelow_eq {limit a b : Nat} (h : a + b < limit) : addBelow limit a b = .ok (a + b) :=
  if_pos h

theorem mulBelow_eq {limit a b : Nat} (h : a * b < limit) : mulBelow limit a b = .ok (a * b) :=
  if_pos h

theorem add_eq {a b : Nat} (h : a + b < countLimit) : add a b = .ok (a + b) := addBelow_eq h

theorem mul_eq {a b : Nat} (h : a * b < countLimit) : mul a b = .ok (a * b) := mulBelow_eq h

theorem sub_eq {a b : Nat} (h : b ≤ a) : sub a b = .ok (a - b) := if_pos h

end CText.Checked
