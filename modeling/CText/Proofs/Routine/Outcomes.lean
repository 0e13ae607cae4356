import CText.Conformance.Execute
import CText.Proofs.Routine.Keeping

/-!
# What is executed

What is executed is a routine with the name that a case gives, or nothing. A routine ends with an
outcome whose error number has 32 bits, so that it can be told in a log.
-/

namespace CText

namespace Routine

/-! ## Error numbers -/

/-- A number of 32 bits with a sign. -/
def InErrno (n : Int) : Prop := -2147483648 ≤ n ∧ n ≤ 2147483647

instance (n : Int) : Decidable (InErrno n) := inferInstanceAs (Decidable (_ ∧ _))

theorem inErrno_errno (e : Error) : InErrno e.errno := by
  cases e with
  | invalidFormat what offset => exact (by decide : InErrno 22)
  | outOfRange => exact (by decide : InErrno 34)
  | allocationFailure requested => exact (by decide : InErrno 12)
  | currentDirectory n => exact ⟨(Int32.ofInt n).le_toInt, (Int32.ofInt n).toInt_le⟩

/-- An outcome that tells an error number of 32 bits. -/
def Tellable (o : Outcome) : Prop := InErrno o.errno

theorem tellable_ok (output : String) : Tellable (.ok output) := (by decide : InErrno 0)

theorem tellable_failed (e : Error) : Tellable (.failed e) := inErrno_errno e

theorem keeps_settled (answer : Except Escape.Failure String) :
    Keeps (fun _ => True) Tellable (settled answer) := by
  cases answer with
  | ok shown => exact tellable_ok shown
  | error failure =>
    cases failure with
    | error e => exact tellable_failed e
    | violation v => trivial

/-- Every routine ends with an error number of 32 bits, whichever promises are broken. -/
theorem keeps_tellable : ∀ r ∈ Conformance.plainRoutines ++ Conformance.referringRoutines,
    ∀ inputs, Keeps (fun _ => True) Tellable (r.run inputs) := by
  simp only [Conformance.plainRoutines, Conformance.referringRoutines, strings, memory, wideStrings,
    paths, codecs, List.forall_mem_append, List.forall_mem_cons]
  and_intros
  all_goals first | exact (List.forall_mem_nil _) | intro inputs
  -- The inputs and the calls before the last step do not matter.
  all_goals
    repeat refine (keeps_true _).bind fun _ _ => ?_
    first
      | exact tellable_ok _
      | exact keeps_settled _

end Routine

namespace Conformance

theorem of_find? {routines : List Routine} {function : String} {r : Routine}
    (h : find? routines function = some r) : r ∈ routines ∧ r.name = function := by
  have hname := List.find?_some h
  exact ⟨List.mem_of_find?_eq_some h, eq_of_beq hname⟩

/-- What is executed is a routine of the name given, unless the reference cannot be read or there is
no routine of that name. -/
theorem execute_eq (function : String) (inputs : Json) :
    (∃ r ∈ plainRoutines ++ referringRoutines, r.name = function ∧
      execute function inputs = (r.run inputs).mapError (.of function)) ∨
    (∃ field reason, execute function inputs = .error (.badInput function field reason)) ∨
    execute function inputs = .error (.unknownFunction function) := by
  unfold execute
  split
  next r hr =>
    obtain ⟨hmem, hname⟩ := of_find? hr
    exact .inl ⟨r, List.mem_append_left _ hmem, hname, rfl⟩
  next =>
    have hreads := Routine.Inputs.reads_text? inputs "reference"
    cases hreference : Routine.Inputs.text? inputs "reference" with
    | ok reference =>
      simp only [Except.mapError, bind, Except.bind]
      split
      next r hr =>
        obtain ⟨hmem, hname⟩ := of_find? hr
        exact .inl ⟨r, List.mem_append_right _ hmem, hname, rfl⟩
      next => exact .inr (.inr rfl)
    | error trouble =>
      cases trouble with
      | input field reason => exact .inr (.inl ⟨field, reason, rfl⟩)
      | violation v => exact (hreads.of_eq_violation hreference).elim

/-- What is executed ends with an error number of 32 bits. -/
theorem tellable_of_execute {function : String} {inputs : Json} {outcome : Routine.Outcome}
    (h : execute function inputs = .ok outcome) : Routine.Tellable outcome := by
  obtain ⟨r, hr, -, heq⟩ | ⟨field, reason, heq⟩ | heq := execute_eq function inputs
  · have hkeeps := Routine.keeps_tellable r hr inputs
    rw [h] at heq
    cases hout : r.run inputs with
    | ok o =>
      rw [hout] at heq
      cases heq
      exact hkeeps.of_eq_ok hout
    | error trouble =>
      rw [hout] at heq
      cases heq
  · rw [h] at heq
    cases heq
  · rw [h] at heq
    cases heq

end Conformance

end CText
