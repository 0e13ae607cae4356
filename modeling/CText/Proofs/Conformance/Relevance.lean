import CText.Proofs.Routine.Confinement
import CText.Proofs.Routine.Outcomes
import Mathlib.Tactic.FinCases

/-!
# Inputs that do not matter

A routine sees the fields that it takes and no others, and it takes just the fields that it can find
fault with. Executing a case adds one thing: where no string, memory or wide routine has the name
that the case gives, its reference is read before the name is looked up. So a reference of the wrong
shape spoils a case whose routine does not take one, and even hides that there is no such routine.
Apart from that, inputs that agree on the fields that the routine takes come to the same.
-/

namespace CText.Conformance

open Routine

def routine? (function : String) : Option Routine :=
  find? (plainRoutines ++ referringRoutines) function

/-- The reference of some inputs is a text, or there is none. -/
def ReferenceReads (inputs : Json) : Prop :=
  ∀ j, Inputs.present? inputs "reference" = some j → ∃ s, j = .text s

/-- A name for which the reference is read although no routine of the name takes it. -/
def ReadsInVain (function : String) : Prop :=
  find? plainRoutines function = none ∧
    ∀ r, routine? function = some r → "reference" ∉ r.fields

/-! ## The fields that a routine takes -/

theorem confined_run {r : Routine} (hr : r ∈ plainRoutines ++ referringRoutines) :
    Confined r.fields r.run := by
  simp only [plainRoutines, referringRoutines, List.mem_append] at hr
  rcases hr with ((h | h) | h) | h | h
  · exact confined_strings r h
  · exact confined_memory r h
  · exact confined_wideStrings r h
  · exact confined_paths r h
  · exact confined_codecs r h

/-- Fields that no routine finds fault with, for the routine of a name. -/
def usable (name : String) : List (String × Json) :=
  -- `memmove` takes as offsets what is a buffer elsewhere, and only codecs need a text.
  let place : Json := if name = "memmove" then .ofNat 0 else .list []
  let string : Json := if name = "machinesize" then .text "" else .list []
  [("s", string), ("src", place), ("dest", place), ("buf", .list []), ("n", .ofNat 0),
    ("c", .ofNat 0), ("dst_len", .ofNat 1), ("s1", .list []), ("s2", .list []),
    ("haystack", .list []), ("needle", .list []), ("set", .list []), ("a", .list []),
    ("b", .list []), ("file", .list []), ("bytes", .ofNat 0)]

/-- Usable fields and one that no routine can use. -/
def spoiled (name field : String) : Json := .object ((field, .bool true) :: usable name)

def blamed? : Except Trouble Outcome → Option String
  | .error (.input field _) => some field
  | _ => none

theorem exists_of_blamed? {x : Except Trouble Outcome} {field : String}
    (h : blamed? x = some field) : ∃ reason, x = .error (.input field reason) := by
  rcases x with (⟨at', reason⟩ | v) | outcome
  · cases h
    exact ⟨reason, rfl⟩
  · cases h
  · cases h

theorem blamed?_spoiled : ∀ r ∈ plainRoutines ++ referringRoutines, ∀ field ∈ r.fields,
    blamed? (r.run (spoiled r.name field)) = some field := by
  decide +kernel

/-- The fields that a routine takes are those that it can find fault with. -/
theorem mem_fields_iff {r : Routine} (hr : r ∈ plainRoutines ++ referringRoutines)
    (field : String) :
    field ∈ r.fields ↔ ∃ inputs reason, r.run inputs = .error (.input field reason) := by
  constructor
  · intro h
    exact ⟨_, exists_of_blamed? (blamed?_spoiled r hr field h)⟩
  · rintro ⟨inputs, reason, h⟩
    exact (confined_run hr).blames h

/-! ## Reading the reference -/

variable {function : String} {i j : Json}

theorem get?_of_present? {field : String} {found : Json}
    (h : Inputs.present? i field = some found) : i.get? field = some found := by
  unfold Inputs.present? at h
  split at h
  · cases h
  · exact h

theorem text?_of_reads (h : ReferenceReads i) :
    ∃ reference, Inputs.text? i "reference" = .ok reference := by
  unfold Inputs.text?
  split
  next found hfound =>
    obtain ⟨s, rfl⟩ := h found hfound
    refine ⟨some s, ?_⟩
    simp only [Inputs.text, Inputs.get, get?_of_present? hfound]
    rfl
  next => exact ⟨none, rfl⟩

theorem text?_of_not_reads (h : ¬ ReferenceReads i) :
    Inputs.text? i "reference" = .error (.input "reference" .string) := by
  simp only [ReferenceReads, Classical.not_forall, not_exists] at h
  obtain ⟨found, hfound, hshape⟩ := h
  simp only [Inputs.text?, hfound, Inputs.text, Inputs.get, get?_of_present? hfound]
  cases found with
  | text s => exact absurd rfl (hshape s)
  | _ => rfl

theorem reads_iff_of_agree {fields : List String} (hagree : AgreeOn fields i j)
    (h : "reference" ∈ fields) : ReferenceReads i ↔ ReferenceReads j := by
  unfold ReferenceReads
  rw [Inputs.present?_eq hagree h]

/-! ## Executing -/

/-- What executing comes to once the reference is out of the way. -/
def dispatch (function : String) (inputs : Json) : Except CaseFault Outcome :=
  match routine? function with
  | some r => (r.run inputs).mapError (.of function)
  | none => .error (.unknownFunction function)

theorem execute_of_plain (h : find? plainRoutines function ≠ none) :
    execute function i = dispatch function i := by
  obtain ⟨r, hr⟩ := Option.ne_none_iff_exists'.1 h
  have hroutine : routine? function = some r := by
    rw [find?] at hr
    rw [routine?, find?, List.find?_append, hr]
    rfl
  simp only [execute, dispatch, hr, hroutine]

theorem execute_of_reads (hplain : find? plainRoutines function = none) (h : ReferenceReads i) :
    execute function i = dispatch function i := by
  obtain ⟨reference, href⟩ := text?_of_reads h
  have hroutine : routine? function = find? referringRoutines function := by
    rw [find?] at hplain
    rw [routine?, find?, List.find?_append, hplain]
    rfl
  simp only [execute, dispatch, hplain, href, hroutine]
  rfl

theorem execute_of_not_reads (hplain : find? plainRoutines function = none)
    (h : ¬ ReferenceReads i) :
    execute function i = .error (.badInput function "reference" .string) := by
  simp only [execute, hplain, text?_of_not_reads h]
  rfl

theorem dispatch_eq_of_agree {r : Routine} (hr : routine? function = some r)
    (hagree : AgreeOn r.fields i j) : dispatch function i = dispatch function j := by
  simp only [dispatch, hr, (confined_run (of_find? hr).1).agrees hagree]

/-- A routine that does not take the reference finds no fault with it. -/
theorem dispatch_ne_badInput {r : Routine} (hr : routine? function = some r)
    (h : "reference" ∉ r.fields) (reason : Reason) :
    dispatch function i ≠ .error (.badInput function "reference" reason) := by
  intro hbad
  simp only [dispatch, hr] at hbad
  cases hrun : r.run i with
  | ok outcome =>
    rw [hrun] at hbad
    cases hbad
  | error trouble =>
    rw [hrun] at hbad
    cases trouble with
    | input field found =>
      cases hbad
      exact h ((confined_run (of_find? hr).1).blames hrun)
    | violation v => cases hbad

/-- The reference of only one of two inputs that agree otherwise can be read. -/
theorem execute_ne_of_reads {r : Routine} (hr : routine? function = some r)
    (hagree : AgreeOn r.fields i j) (hplain : find? plainRoutines function = none)
    (hi : ReferenceReads i) (hj : ¬ ReferenceReads j) :
    ReadsInVain function ∧ execute function i ≠ execute function j := by
  have hunused : "reference" ∉ r.fields := fun h => hj ((reads_iff_of_agree hagree h).1 hi)
  constructor
  · refine ⟨hplain, fun r' hr' => ?_⟩
    cases hr.symm.trans hr'
    exact hunused
  · rw [execute_of_reads hplain hi, execute_of_not_reads hplain hj]
    exact dispatch_ne_badInput hr hunused .string

theorem execute_eq_iff {r : Routine} (hr : routine? function = some r)
    (hagree : AgreeOn r.fields i j) :
    execute function i = execute function j ↔
      (ReadsInVain function → (ReferenceReads i ↔ ReferenceReads j)) := by
  have hsame := dispatch_eq_of_agree hr hagree
  by_cases hplain : find? plainRoutines function = none
  · by_cases hi : ReferenceReads i <;> by_cases hj : ReferenceReads j
    · rw [execute_of_reads hplain hi, execute_of_reads hplain hj]
      exact ⟨fun _ _ => iff_of_true hi hj, fun _ => hsame⟩
    · obtain ⟨hvain, hne⟩ := execute_ne_of_reads hr hagree hplain hi hj
      exact ⟨fun h => absurd h hne, fun h => absurd ((h hvain).1 hi) hj⟩
    · obtain ⟨hvain, hne⟩ := execute_ne_of_reads hr hagree.symm hplain hj hi
      exact ⟨fun h => absurd h.symm hne, fun h => absurd ((h hvain).2 hj) hi⟩
    · rw [execute_of_not_reads hplain hi, execute_of_not_reads hplain hj]
      exact ⟨fun _ _ => iff_of_false hi hj, fun _ => rfl⟩
  · rw [execute_of_plain hplain, execute_of_plain hplain]
    exact ⟨fun _ hvain => absurd hvain.1 hplain, fun _ => hsame⟩

theorem execute_eq_unknown_iff (h : routine? function = none) :
    execute function i = .error (.unknownFunction function) ↔ ReferenceReads i := by
  have hplain : find? plainRoutines function = none := by
    rw [routine?, find?, List.find?_append, Option.or_eq_none_iff] at h
    exact h.1
  by_cases hi : ReferenceReads i
  · rw [execute_of_reads hplain hi, dispatch, h]
    exact iff_of_true rfl hi
  · rw [execute_of_not_reads hplain hi]
    exact iff_of_false (fun h => nomatch h) hi

/-- The fields that a routine takes are those that it can find fault with, and inputs that agree on
them come to the same outcome or the same fault, whatever their other fields are; only where a name
has its reference read in vain must the reference be readable in both or in neither. A name of no
routine is reported as such just if the reference is readable. -/
theorem unused_inputs_irrelevant_iff (function : String) :
    (∀ r, routine? function = some r →
      (∀ field, field ∈ r.fields ↔
        ∃ inputs reason, r.run inputs = .error (.input field reason)) ∧
      ∀ i j, AgreeOn r.fields i j →
        (execute function i = execute function j ↔
          (ReadsInVain function → (ReferenceReads i ↔ ReferenceReads j)))) ∧
    (routine? function = none →
      ∀ i, execute function i = .error (.unknownFunction function) ↔ ReferenceReads i) := by
  constructor
  · intro r hr
    exact ⟨mem_fields_iff (of_find? hr).1, fun i j hagree => execute_eq_iff hr hagree⟩
  · intro h i
    exact execute_eq_unknown_iff h

/-- A case that escapes a text, with a reference and another field that it has no use for, and a case
of no routine. -/
theorem unused_inputs_irrelevant_sample :
    let i : Json := .object [("s", .text "a")]
    let j : Json := .object [("s", .text "a"), ("reference", .text "b"), ("cwd", .bool true)]
    (∃ r, routine? "escape" = some r ∧ AgreeOn r.fields i j) ∧ ReadsInVain "escape" ∧
      execute "escape" i = execute "escape" j ∧
      routine? "gets" = none ∧ execute "gets" j = .error (.unknownFunction "gets") := by
  intro i j
  have hreads : ReferenceReads i ∧ ReferenceReads j := by
    constructor
    · rintro found ⟨⟩
    · rintro found ⟨⟩
      exact ⟨"b", rfl⟩
  obtain ⟨r, hr⟩ : ∃ r, routine? "escape" = some r := ⟨_, rfl⟩
  have hfields : r.fields = ["quote", "s"] := by
    cases hr
    rfl
  have hagree : AgreeOn r.fields i j := by
    intro field hfield
    rw [hfields] at hfield
    fin_cases hfield <;> rfl
  have hvain : ReadsInVain "escape" := by
    refine ⟨rfl, fun r' hr' => ?_⟩
    cases hr.symm.trans hr'
    rw [hfields]
    decide
  have hsame := ((unused_inputs_irrelevant_iff "escape").1 r hr).2 i j hagree
  have hunknown := (unused_inputs_irrelevant_iff "gets").2 rfl j
  exact ⟨⟨r, hr, hagree⟩, hvain, hsame.2 fun _ => iff_of_true hreads.1 hreads.2, rfl,
    hunknown.2 hreads.2⟩

/-- A reference that is a number spoils a case of a routine that takes none, and is reported in the
place of a routine that there is not. -/
theorem reference_read_in_vain :
    let i : Json := .object [("s", .text "a")]
    let j : Json := .object [("s", .text "a"), ("reference", .ofNat 5)]
    (∃ r, routine? "escape" = some r ∧ AgreeOn r.fields i j) ∧
      execute "escape" i = .ok (.ok "a") ∧
      execute "escape" j = .error (.badInput "escape" "reference" .string) ∧
      routine? "gets" = none ∧
      execute "gets" i = .error (.unknownFunction "gets") ∧
      execute "gets" j = .error (.badInput "gets" "reference" .string) := by
  intro i j
  obtain ⟨r, hr⟩ : ∃ r, routine? "escape" = some r := ⟨_, rfl⟩
  have hagree : AgreeOn r.fields i j := by
    cases hr
    intro field hfield
    fin_cases hfield <;> rfl
  exact ⟨⟨r, hr, hagree⟩, by decide +kernel, rfl, rfl, rfl, rfl⟩

end CText.Conformance
