import CText.Proofs.CString.Content
import CText.Routine.Inputs

/-!
# What computations over inputs come to

A computation over inputs ends with a value, with an input that cannot be used, or with a broken
promise. A judgment says which values and which broken promises there can be, and is put together
along the steps of a computation. Reading an input breaks no promise; what is read of inputs that
leave room for buffers is short enough to be counted.
-/

namespace CText.Routine

variable {α β : Type}

/-- A computation whose values all have a property, and whose broken promises too. -/
def Keeps (broken : Violation → Prop) (P : α → Prop) : Except Trouble α → Prop
  | .ok a => P a
  | .error (.input _ _) => True
  | .error (.violation v) => broken v

section

variable {broken : Violation → Prop} {P : α → Prop} {Q : β → Prop} {x : Except Trouble α}

theorem Keeps.bind {f : α → Except Trouble β} (h : Keeps broken P x)
    (hf : ∀ a, P a → Keeps broken Q (f a)) : Keeps broken Q (x >>= f) := by
  cases x with
  | ok a => exact hf a h
  | error trouble => cases trouble <;> exact h

theorem Keeps.map {f : α → β} (h : Keeps broken P x) (hf : ∀ a, P a → Q (f a)) :
    Keeps broken Q (x.map f) := by
  cases x with
  | ok a => exact hf a h
  | error trouble => cases trouble <;> exact h

theorem Keeps.mono {broken' : Violation → Prop} {P' : α → Prop} (h : Keeps broken P x)
    (hbroken : ∀ v, broken v → broken' v) (hP : ∀ a, P a → P' a) : Keeps broken' P' x := by
  cases x with
  | ok a => exact hP a h
  | error trouble =>
    cases trouble with
    | input field reason => trivial
    | violation v => exact hbroken v h

theorem Keeps.of_eq_ok {a : α} (h : Keeps broken P x) (hx : x = .ok a) : P a := by
  rw [hx] at h
  exact h

theorem Keeps.of_eq_violation {v : Violation} (h : Keeps broken P x)
    (hx : x = .error (.violation v)) : broken v := by
  rw [hx] at h
  exact h

end

/-- Nothing is said of what may be anything. -/
theorem keeps_true (x : Except Trouble α) : Keeps (fun _ => True) (fun _ => True) x := by
  cases x with
  | ok a => trivial
  | error trouble => cases trouble <;> trivial

/-- A computation that breaks no promise. -/
abbrev Reads (P : α → Prop) (x : Except Trouble α) : Prop := Keeps (fun _ => False) P x

theorem Reads.mono {P Q : α → Prop} {x : Except Trouble α} (h : Reads P x) (hP : ∀ a, P a → Q a) :
    Reads Q x :=
  Keeps.mono h (fun _ hfalse => hfalse) hP

/-- What a computation comes to is what it comes to. -/
theorem Reads.value {P : α → Prop} {x : Except Trouble α} (h : Reads P x) :
    Reads (fun a => P a ∧ x = .ok a) x := by
  cases x with
  | ok a => exact ⟨h, rfl⟩
  | error trouble =>
    cases trouble with
    | input field reason => trivial
    | violation v => exact h

theorem Reads.keeps {broken : Violation → Prop} {P : α → Prop} {x : Except Trouble α}
    (h : Reads P x) : Keeps broken P x :=
  Keeps.mono h (fun _ hfalse => hfalse.elim) fun _ ha => ha

end CText.Routine

namespace CText

/-! ## Inputs -/

/-- Texts and lists of inputs have fewer bytes or items than this, so that buffers of eight times
their size can be allocated: units are widened to four bytes, a byte is escaped by up to four, and
two inputs are joined. -/
def inputLimit : Nat := 1152921504606846976

/-- A value of which the texts and lists that a routine reads leave room for the buffers made of
them. -/
def Json.Held : Json → Prop
  | .text s => (Utf8.bytes s).length < inputLimit
  | .list items => items.length < inputLimit
  | _ => True

/-- Inputs that leave room for the buffers made of them. -/
def Held (inputs : Json) : Prop := ∀ field j, inputs.get? field = some j → j.Held

/-- A buffer that comes from an input: it has at most one unit more than inputs have, and its string
has none more. -/
structure Counted {α : Type} [DecidableEq α] [CodeUnit α] (s : List α) : Prop where
  buffer : s.length ≤ inputLimit
  string : (CString.content s).length < inputLimit

theorem Counted.of_length_lt {α : Type} [DecidableEq α] [CodeUnit α] {s : List α}
    (h : s.length < inputLimit) : Counted s :=
  ⟨Nat.le_of_lt h, Nat.lt_of_le_of_lt (CString.content_length_le s) h⟩

/-- A terminator is not counted. -/
theorem Counted.of_terminated {α : Type} [DecidableEq α] [CodeUnit α] {s : List α}
    (h : s.length < inputLimit) : Counted (s ++ [CodeUnit.nul]) := by
  constructor
  · rw [List.length_append, List.length_singleton]
    exact h
  · refine Nat.lt_of_le_of_lt ?_ h
    rw [CString.content, List.takeWhile_append]
    split
    · simp
    · exact CString.content_length_le s

theorem Counted.length_lt {α : Type} [DecidableEq α] [CodeUnit α] {s : List α} (h : Counted s) :
    CString.length s < inputLimit := by
  rw [CString.length_eq]
  exact h.string

namespace Routine.Inputs

variable {inputs : Json}

theorem reads_get (inputs : Json) (field : String) :
    Reads (fun j => inputs.get? field = some j) (get inputs field) := by
  unfold get
  split
  next j hj => exact hj
  next => trivial

theorem reads_units {α : Type} (field : String) (reason : Reason) (limit : Nat) (unit : Nat → α)
    (items : List Json) :
    Reads (fun out => out.length = items.length) (units field reason limit unit items) := by
  induction items with
  | nil => rfl
  | cons item items ih =>
    rw [units, List.mapM_cons]
    refine Keeps.bind (P := fun _ => True) ?_ fun a _ => ih.bind fun rest hrest => ?_
    · split <;> trivial
    · exact congrArg (· + 1) hrest

theorem reads_bytes (held : Held inputs) (field : String) :
    Reads (fun s => s.length < inputLimit) (bytes inputs field) := by
  refine (reads_get inputs field).bind fun j hj => ?_
  have hheld := held field j hj
  split
  next s => exact hheld
  next items => exact (reads_units ..).mono fun s hs => hs ▸ hheld
  next => trivial

theorem reads_cstring (held : Held inputs) (field : String) :
    Reads Counted (cstring inputs field) := by
  refine (reads_get inputs field).bind fun j hj => ?_
  have hheld := held field j hj
  split
  next s => exact Counted.of_terminated hheld
  next items =>
    exact (reads_units ..).mono fun s hs => Counted.of_length_lt (hs ▸ hheld)
  next => trivial

theorem reads_cstring? (held : Held inputs) (field : String) :
    Reads (fun s => ∀ t ∈ s, Counted t) (cstring? inputs field) := by
  unfold cstring?
  split
  · exact (reads_cstring held field).map fun s hs t ht => Option.some.inj ht ▸ hs
  · exact fun t ht => nomatch ht

theorem length_le_bytes (s : List Char) : s.length ≤ (Utf8.encode s).length := by
  induction s with
  | nil => rfl
  | cons c s ih =>
    have hchar : 0 < (Utf8.encodeChar c).length := by
      unfold Utf8.encodeChar
      dsimp only
      split
      · simp
      · split
        · simp
        · split <;> simp
    simp only [Utf8.encode, List.flatMap_cons, List.length_append, List.length_cons] at ih ⊢
    omega

theorem reads_wide (held : Held inputs) (field : String) : Reads Counted (wide inputs field) := by
  refine (reads_get inputs field).bind fun j hj => ?_
  have hheld := held field j hj
  split
  next s =>
    refine Counted.of_terminated ?_
    rw [List.length_map]
    exact Nat.lt_of_le_of_lt (length_le_bytes s.toList) hheld
  next items =>
    exact (reads_units ..).mono fun s hs => Counted.of_length_lt (hs ▸ hheld)
  next => trivial

theorem reads_text (inputs : Json) (field : String) :
    Reads (fun s => inputs.get? field = some (.text s)) (text inputs field) := by
  refine (reads_get inputs field).bind fun j hj => ?_
  split
  next s => exact hj
  next => trivial

theorem reads_text? (inputs : Json) (field : String) :
    Reads (fun s => ∀ t ∈ s, inputs.get? field = some (.text t)) (text? inputs field) := by
  unfold text?
  split
  · exact (reads_text inputs field).map fun s hs t ht => Option.some.inj ht ▸ hs
  · exact fun t ht => nomatch ht

def number? (inputs : Json) (field : String) : Option Nat := (inputs.get? field).bind Json.nat?

/-- What is `null` is no number either. -/
theorem number?_eq (inputs : Json) (field : String) :
    number? inputs field = (present? inputs field).bind Json.nat? := by
  unfold present? number?
  split
  next hnull =>
    rw [hnull]
    rfl
  next => rfl

theorem number?_lt {field : String} {n : Nat} (h : number? inputs field = some n) :
    n < Json.natLimit := by
  obtain ⟨j, -, hj⟩ := Option.bind_eq_some_iff.1 h
  unfold Json.nat? at hj
  split at hj
  next m =>
    split at hj
    next hm =>
      cases hj
      omega
    next => cases hj
  next => cases hj

theorem count_eq {field : String} {n : Nat} (h : number? inputs field = some n) :
    count inputs field = .ok n := by
  obtain ⟨j, hj, hn⟩ := Option.bind_eq_some_iff.1 h
  have hget : get inputs field = .ok j := by
    rw [get, hj]
  unfold count
  simp only [hget, bind, Except.bind, hn]
  rfl

def numberOr? (inputs : Json) (field : String) (default : Nat) : Option Nat :=
  match present? inputs field with
  | some j => j.nat?
  | none => some default

theorem countOr_eq {field : String} {default n : Nat}
    (h : numberOr? inputs field default = some n) : countOr inputs field default = .ok n := by
  cases hpresent : present? inputs field with
  | some j =>
    rw [numberOr?, hpresent] at h
    have hnumber : number? inputs field = some n := by
      rw [number?_eq, hpresent]
      exact h
    rw [countOr, hpresent]
    exact count_eq hnumber
  | none =>
    rw [numberOr?, hpresent] at h
    cases h
    rw [countOr, hpresent]

theorem reads_count (inputs : Json) (field : String) :
    Reads (fun n => number? inputs field = some n) (count inputs field) := by
  refine (reads_get inputs field).bind ?_
  intro j hj
  split
  next n hn => exact (congrArg (Option.bind · Json.nat?) hj).trans hn
  next => trivial

theorem reads_countOr (inputs : Json) (field : String) (default : Nat) :
    Reads (fun n => number? inputs field = some n ∨ present? inputs field = none ∧ n = default)
      (countOr inputs field default) := by
  unfold countOr
  split
  next => exact (reads_count inputs field).mono fun n hn => .inl hn
  next hnone => exact .inr ⟨hnone, rfl⟩

theorem reads_byte (inputs : Json) (field : String) :
    Reads (fun _ => True) (byte inputs field) := by
  refine (reads_get inputs field).bind ?_
  intro j _
  split
  next s => split <;> trivial
  next n => split <;> trivial
  next => trivial

theorem reads_unit (inputs : Json) (field : String) :
    Reads (fun _ => True) (unit inputs field) := by
  refine (reads_get inputs field).bind ?_
  intro j _
  split
  next s => split <;> trivial
  next n => split <;> trivial
  next => trivial

theorem reads_octal (inputs : Json) (field : String) :
    Reads (fun _ => True) (octal inputs field) := by
  refine (reads_get inputs field).bind ?_
  intro j _
  split
  next s => split <;> trivial
  next n => split <;> trivial
  next => trivial

theorem reads_sizeBase (inputs : Json) : Reads (fun _ => True) (sizeBase inputs) := by
  refine (reads_text? inputs "units").bind ?_
  intro s _
  split <;> trivial

theorem reads_addFlags (flags : Escape.Flags) (items : List Json) :
    Reads (fun _ => True) (items.foldlM addFlag flags) := by
  induction items generalizing flags with
  | nil => trivial
  | cons item items ih =>
    have hflag : Reads (fun _ => True) (addFlag flags item) := by
      unfold addFlag
      split <;> trivial
    exact hflag.bind fun flags _ => ih flags

theorem reads_escapeFlags (inputs : Json) : Reads (fun _ => True) (escapeFlags inputs) := by
  unfold escapeFlags
  split
  next => trivial
  next items _ => exact reads_addFlags .plain items
  next => trivial

end Routine.Inputs

end CText
