import CText.Conformance.Verdict
import CText.Proofs.Routine.Outcomes
import CText.Proofs.Routine.Promises

/-!
# Cases break no promise

Whatever a case names and gives, executing it ends with an outcome or with a fault of the case. A
destination that is too small is found out before the call and reported as an unusable size; where
no size is given, the destination has the room that is needed.
-/

namespace CText

instance (j : Json) : Decidable j.Held := by
  cases j <;> unfold Json.Held <;> infer_instance

theorem held_object {members : List (String × Json)} (h : ∀ member ∈ members, member.2.Held) :
    Held (.object members) := by
  intro field j hj
  obtain ⟨before, after, rfl, -⟩ := List.lookup_eq_some_iff.1 hj
  exact h (field, j) (List.mem_append_right _ List.mem_cons_self)

namespace Conformance

open Byte Routine Inputs

def string? (inputs : Json) (field : String) : Option (List UInt8) :=
  (cstring inputs field).toOption

/-- The room that a routine needs in a destination of which a case gives the size. -/
def neededRoom? (inputs : Json) : (function : String) → Option Nat
  | "strcpy" | "stpcpy" => do
    let src ← string? inputs "src"
    return strlen src + 1
  | "strcat" => do
    let src ← string? inputs "src"
    let dest ← string? inputs "dest"
    return strlen dest + strlen src + 1
  | "strncat" => do
    let src ← string? inputs "src"
    let dest ← string? inputs "dest"
    let n ← number? inputs "n"
    return strlen dest + strnlen src n + 1
  | "strlcat" => do
    let _ ← string? inputs "src"
    let dest ← string? inputs "dest"
    return strlen dest + 1
  | _ => none

/-- The room that a case gives a routine in its destination. Where it says nothing of the room,
there is as much as is needed; only a string that is cut to the room must have its room given. -/
def givenRoom? (inputs : Json) (needed : Nat) : (function : String) → Option Nat
  | "strlcat" => number? inputs "dst_len"
  | _ => numberOr? inputs "dst_len" needed

/-- What is reported of a destination that is too small. -/
def refusal (function : String) (needed capacity : Nat) : Reason :=
  if function = "strlcat" then .shortDestination else .noRoom needed capacity

variable {function : String} {inputs : Json}

theorem eq_ok_of_string? {field : String} {s : List UInt8} (h : string? inputs field = some s) :
    cstring inputs field = .ok s := by
  unfold string? at h
  cases hs : cstring inputs field with
  | ok t =>
    rw [hs] at h
    exact congrArg Except.ok (Option.some.inj h)
  | error trouble =>
    rw [hs] at h
    cases h

/-- A routine that needs room in its destination is executed if there is as much, and the room is
reported if there is less. -/
theorem execute_needsRoom {needed capacity : Nat} (held : Held inputs)
    (hsize : Allocatable inputs function) (hneeded : neededRoom? inputs function = some needed)
    (hcapacity : givenRoom? inputs needed function = some capacity) :
    ∃ x, NeedsRoom (refusal function needed capacity) needed capacity x ∧
      execute function inputs = x.mapError (.of function) := by
  unfold neededRoom? at hneeded
  split at hneeded
  -- `strcpy`
  next =>
    obtain ⟨src, hsrc, hneeded⟩ := Option.bind_eq_some_iff.1 hneeded
    cases hneeded
    exact ⟨_, needsRoom_ofCopy held hsize (fun _ _ => answers_strcpy) (eq_ok_of_string? hsrc)
      (countOr_eq hcapacity), rfl⟩
  -- `stpcpy`
  next =>
    obtain ⟨src, hsrc, hneeded⟩ := Option.bind_eq_some_iff.1 hneeded
    cases hneeded
    exact ⟨_, needsRoom_ofCopy held hsize (fun _ _ hroom _ => answers_stpcpy hroom)
      (eq_ok_of_string? hsrc) (countOr_eq hcapacity), rfl⟩
  -- `strcat`
  next =>
    obtain ⟨src, hsrc, hneeded⟩ := Option.bind_eq_some_iff.1 hneeded
    obtain ⟨dest, hdest, hneeded⟩ := Option.bind_eq_some_iff.1 hneeded
    cases hneeded
    have hsrc := eq_ok_of_string? hsrc
    have hadded : joinedLength none src = .ok (strlen src) := Checked.length_eq src
    have hcounted := (reads_cstring held "src").of_eq_ok hsrc
    refine ⟨runAppend "strcat" none src inputs, needsRoom_runAppend held hsize hcounted
      (eq_ok_of_string? hdest) hadded (countOr_eq hcapacity), ?_⟩
    change Except.mapError _ (cstring inputs "src" >>= _) = _
    rw [hsrc, Checked.ok_bind]
  -- `strncat`
  next =>
    obtain ⟨src, hsrc, hneeded⟩ := Option.bind_eq_some_iff.1 hneeded
    obtain ⟨dest, hdest, hneeded⟩ := Option.bind_eq_some_iff.1 hneeded
    obtain ⟨n, hn, hneeded⟩ := Option.bind_eq_some_iff.1 hneeded
    cases hneeded
    have hsrc := eq_ok_of_string? hsrc
    have hdest := eq_ok_of_string? hdest
    have hadded : joinedLength (some n) src = .ok (strnlen src n) := Checked.boundedLength_eq src n
    have hcounted := (reads_cstring held "src").of_eq_ok hsrc
    refine ⟨runAppend "strncat" (some n) src inputs, needsRoom_runAppend held hsize hcounted hdest
      hadded (countOr_eq hcapacity), ?_⟩
    change Except.mapError _ (cstring inputs "src" >>= _) = _
    rw [hsrc, Checked.ok_bind, hdest, Checked.ok_bind, count_eq hn, Checked.ok_bind]
  -- `strlcat`
  next =>
    obtain ⟨src, hsrc, hneeded⟩ := Option.bind_eq_some_iff.1 hneeded
    obtain ⟨dest, hdest, hneeded⟩ := Option.bind_eq_some_iff.1 hneeded
    cases hneeded
    exact ⟨_, needsRoom_runCutAppend held hsize (eq_ok_of_string? hsrc) (eq_ok_of_string? hdest)
      hcapacity, rfl⟩
  next => cases hneeded

/-- Every routine of the tables keeps its promises. -/
theorem reads_run (held : Held inputs) {r : Routine}
    (hr : r ∈ plainRoutines ++ referringRoutines) (hsize : Allocatable inputs r.name) :
    Reads (fun _ => True) (r.run inputs) := by
  rcases List.mem_append.1 hr with hplain | hreferring
  · rcases List.mem_append.1 hplain with hbytes | hwide
    · rcases List.mem_append.1 hbytes with hstring | hmemory
      · exact reads_strings held r hstring hsize
      · exact reads_memory held r hmemory hsize
    · exact reads_wideStrings held r hwide
  · rcases List.mem_append.1 hreferring with hpath | hcodec
    · exact reads_paths held r hpath
    · exact reads_codecs held r hcodec

theorem execute_ne_violation (held : Held inputs) (hsize : Allocatable inputs function)
    (v : Violation) : execute function inputs ≠ .error (.violation v) := by
  intro hviolation
  rcases execute_eq function inputs with ⟨r, hr, hname, heq⟩ | ⟨field, reason, heq⟩ | heq
  · have hreads := reads_run held hr (hname ▸ hsize)
    rw [hviolation] at heq
    cases hrun : r.run inputs with
    | ok outcome =>
      rw [hrun] at heq
      cases heq
    | error trouble =>
      cases trouble with
      | input field reason =>
        rw [hrun] at heq
        cases heq
      | violation w => exact hreads.of_eq_violation hrun
  · rw [hviolation] at heq
    cases heq
  · rw [hviolation] at heq
    cases heq

/-- There is a verdict on a case if the buffers that it asks for can be made. -/
theorem exists_verdict {c : FixtureCase} (held : Held c.inputs)
    (hsize : Allocatable c.inputs c.function) (family : String) :
    ∃ verdict, Verdict.ofCase family c = .ok verdict := by
  have hkept := execute_ne_violation held hsize
  unfold Verdict.ofCase outcomeOf
  split
  · exact ⟨_, rfl⟩
  next b hexec => exact absurd hexec (hkept b)
  · exact ⟨_, rfl⟩

/-- Executing a case breaks no promise: whatever routine it names and whatever its inputs are, as
long as there is room for the buffers made of them and a buffer can have the size that the case
gives for it, there is an outcome or a fault of the case. No destination is too small for what is
copied or joined into it, no unit or range is taken outside a buffer, no copy is made to a range of
another length and no number leaves its width; every one of these would have been a violation. A
destination that the case makes too small is reported before anything is written to it, and one that
is not too small is never refused. -/
theorem execute_breaks_no_promise (function : String) (inputs : Json) (held : Held inputs)
    (hsize : Allocatable inputs function) :
    (∀ v, execute function inputs ≠ .error (.violation v)) ∧
      ∀ needed capacity, neededRoom? inputs function = some needed →
        givenRoom? inputs needed function = some capacity →
        (capacity < needed → execute function inputs =
          .error (.badInput function "dst_len" (refusal function needed capacity))) ∧
        (needed ≤ capacity → ∃ outcome, execute function inputs = .ok outcome) := by
  refine ⟨execute_ne_violation held hsize, ?_⟩
  intro needed capacity hneeded hcapacity
  obtain ⟨x, hx, heq⟩ := execute_needsRoom held hsize hneeded hcapacity
  rw [heq]
  constructor
  · intro hshort
    rw [hx.refuses hshort]
    rfl
  · intro hroom
    obtain ⟨outcome, houtcome⟩ := hx.answers hroom
    rw [houtcome]
    exact ⟨outcome, rfl⟩

/-- Two strings that would need five bytes, for a destination of four. -/
theorem execute_breaks_no_promise_strcat :
    let inputs : Json := .object [("src", .text "cd"), ("dest", .text "ab"),
      ("dst_len", .number (.whole 4))]
    Held inputs ∧ Allocatable inputs "strcat" ∧ neededRoom? inputs "strcat" = some 5 ∧
      givenRoom? inputs 5 "strcat" = some 4 ∧
      (∀ v, execute "strcat" inputs ≠ .error (.violation v)) ∧
      execute "strcat" inputs = .error (.badInput "strcat" "dst_len" (.noRoom 5 4)) := by
  intro inputs
  have held : Held inputs := held_object (by decide)
  have hsize : Allocatable inputs "strcat" := by
    intro n hn
    have hfour : some 4 = some n := hn
    cases hfour
    decide
  obtain ⟨hkept, hrooms⟩ := execute_breaks_no_promise "strcat" inputs held hsize
  obtain ⟨hrefuses, -⟩ := hrooms 5 4 rfl rfl
  exact ⟨held, hsize, rfl, rfl, hkept, hrefuses (by decide)⟩

/-- A buffer of more bytes than an object may have cannot be made. -/
example : execute "memset" (.object [("dst_len", .number (.whole 9223372036854775808)),
    ("c", .number (.whole 0)), ("n", .number (.whole 0))]) =
    .error (.violation .unaddressable) := rfl

end Conformance

end CText
