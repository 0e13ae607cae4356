import CText.Conformance.Fixture
import CText.Proofs.Json.Pretty
import CText.Proofs.Json.Records
import CText.Proofs.Routine.Outcomes

/-!
# Fixture sets that are read back

A set that is written out is read back as it was, if the inputs of its cases can be read back and
the error numbers have 32 bits. That is so for every set that was read, in whatever shape, unless
there are floating numbers among its inputs.
-/

namespace CText.Conformance

open Json Json.Document

/-- A case that can be read back. -/
structure FixtureCase.Plain (c : FixtureCase) : Prop where
  inputs : Json.Plain inputsDepth c.inputs
  errno : Routine.InErrno c.expectedErrno

namespace FixtureCase.Plain

variable {c : FixtureCase}

theorem spellable (h : c.Plain) : Spellable c.toJson := by
  refine .object fun member hmember => ?_
  simp only [List.mem_cons, List.not_mem_nil, or_false] at hmember
  rcases hmember with rfl | rfl | rfl | rfl | rfl | rfl
  · exact .text _
  · exact .text _
  · exact .text _
  · exact h.inputs.spellable
  · exact .text _
  · obtain ⟨hlow, hhigh⟩ := h.errno
    exact .whole ⟨by omega, by omega⟩

theorem ofDocument_document (h : c.Plain) :
    FixtureCase.ofDocument (document c.toJson) = .ok c := by
  have hinputs := h.inputs.readValue_document
  have herrno : readErrno (document (.ofInt c.expectedErrno)) = .ok c.expectedErrno :=
    if_pos h.errno
  have hfields : readFields Draft.step {} (memberDocuments [("name", .text c.name),
      ("function", .text c.function), ("reference", .text c.reference), ("inputs", c.inputs),
      ("expected_output", .text c.expectedOutput), ("expected_errno", .ofInt c.expectedErrno)]) =
      .ok ⟨some c.name, some c.function, some c.reference, some c.inputs, some c.expectedOutput,
        some c.expectedErrno⟩ := by
    simp only [memberDocuments, readFields, Draft.step, hinputs, herrno]
    rfl
  simp only [ofDocument, toJson, document, readRecord, hfields]
  rfl

end FixtureCase.Plain

theorem mapM_documents {α : Type} {read : Document → Except Fault α} {write : α → Json}
    {items : List α} (h : ∀ a ∈ items, read (document (write a)) = .ok a) :
    (documents (items.map write)).mapM read = .ok items := by
  induction items with
  | nil => rfl
  | cons a items ih =>
    rw [List.forall_mem_cons] at h
    rw [List.map_cons, documents, List.mapM_cons, h.1, ih h.2]
    rfl

namespace FixtureSet

variable {s : FixtureSet}

theorem spellable (h : ∀ c ∈ s.cases, c.Plain) : Spellable s.toJson := by
  refine .object fun member hmember => ?_
  simp only [List.mem_cons, List.not_mem_nil, or_false] at hmember
  rcases hmember with rfl | rfl | rfl | rfl
  · exact .text _
  · exact .text _
  · exact .text _
  · refine .list fun item hitem => ?_
    obtain ⟨c, hc, rfl⟩ := List.mem_map.1 hitem
    exact (h c hc).spellable

/-- A set that is written out is read back. -/
theorem read_render (h : ∀ c ∈ s.cases, c.Plain) : FixtureSet.read s.render = .ok s := by
  refine (spellable h).readWith_pretty ?_
  have hcases : readList FixtureCase.ofDocument
      (document (.list (s.cases.map FixtureCase.toJson))) = .ok s.cases := by
    rw [document, readList, mapM_documents fun c hc => (h c hc).ofDocument_document]
    rfl
  have hfields : readFields Draft.step {} (memberDocuments [("version", .text s.version),
      ("family", .text s.family), ("captured_at", .text s.capturedAt),
      ("cases", .list (s.cases.map FixtureCase.toJson))]) =
      .ok ⟨some s.version, some s.family, some s.capturedAt, some s.cases⟩ := by
    simp only [memberDocuments, readFields, Draft.step, hcases]
    rfl
  simp only [ofDocument, toJson, document, readRecord, hfields]
  rfl

end FixtureSet

/-! ## Sets that were read -/

/-- A draft whose inputs and error number, if it has them, can be read back. -/
structure FixtureCase.Draft.Proper (c : Draft) : Prop where
  inputs : ∀ j ∈ c.inputs, FloatFree j → Json.Plain inputsDepth j
  errno : ∀ n ∈ c.expectedErrno, Routine.InErrno n

namespace FixtureCase

theorem Draft.Proper.step {c : Draft} (h : c.Proper) (field : String) {d : Document}
    (fits : Fits d) : Yields Draft.Proper (c.step field d) := by
  have htext : Yields (fun _ => True) (readText d) := fun _ _ => trivial
  have hpass : Yields (fun _ => True) (pass d) := fun _ _ => trivial
  unfold Draft.step
  split
  · exact yields_setOnce htext fun _ _ => ⟨h.inputs, h.errno⟩
  · exact yields_setOnce htext fun _ _ => ⟨h.inputs, h.errno⟩
  · exact yields_setOnce htext fun _ _ => ⟨h.inputs, h.errno⟩
  · refine yields_setOnce (yields_readValue fits inputsDepth) fun j hj => ⟨?_, h.errno⟩
    rintro _ ⟨⟩
    exact hj
  · exact yields_setOnce htext fun _ _ => ⟨h.inputs, h.errno⟩
  · refine yields_setOnce (yields_readInt _ _ d) fun n hn => ⟨h.inputs, ?_⟩
    rintro _ ⟨⟩
    exact hn
  · exact hpass.map fun _ _ => h

theorem Draft.Proper.finish {c : Draft} (h : c.Proper) :
    Yields (fun c => FloatFree c.inputs → c.Plain) c.finish := by
  have herrno : Routine.InErrno (c.expectedErrno.getD 0) := by
    have hdefault : Routine.InErrno 0 := by decide
    cases hn : c.expectedErrno with
    | none => exact hdefault
    | some n => exact h.errno n hn
  refine yields_bind fun name => yields_bind fun function => ?_
  refine (yields_require h.inputs).bind fun inputs hinputs => yields_bind fun output => ?_
  exact yields_ok fun free => ⟨hinputs free, herrno⟩

/-- A case that is read can be read back if its inputs have no floating numbers. -/
theorem yields_ofDocument {d : Document} (fits : Fits d) :
    Yields (fun c => FloatFree c.inputs → c.Plain) (ofDocument d) := by
  have hstart : Draft.Proper {} := ⟨nofun, nofun⟩
  have hrecord : Yields Draft.Proper (readRecord fieldNames Draft.step {} d) :=
    yields_readRecord hstart fits fun _ field _ h => h.step field
  exact hrecord.bind fun c hc => hc.finish

end FixtureCase

namespace FixtureSet

/-- A draft whose cases, if it has them, can be read back unless their inputs have floating
numbers. -/
def Draft.Proper (s : Draft) : Prop :=
  ∀ cases ∈ s.cases, ∀ c ∈ cases, FloatFree c.inputs → c.Plain

theorem Draft.Proper.step {s : Draft} (h : s.Proper) (field : String) {d : Document}
    (fits : Fits d) : Yields Draft.Proper (s.step field d) := by
  have htext : Yields (fun _ => True) (readText d) := fun _ _ => trivial
  have hpass : Yields (fun _ => True) (pass d) := fun _ _ => trivial
  have hcases := yields_readList fits fun _ => FixtureCase.yields_ofDocument
  unfold Draft.step
  split
  · exact yields_setOnce htext fun _ _ => h
  · exact yields_setOnce htext fun _ _ => h
  · exact yields_setOnce htext fun _ _ => h
  · refine yields_setOnce hcases fun cases hplain => ?_
    rintro _ ⟨⟩
    exact hplain
  · exact hpass.map fun _ _ => h

theorem Draft.Proper.finish {s : Draft} (h : s.Proper) :
    Yields (fun s => ∀ c ∈ s.cases, FloatFree c.inputs → c.Plain) s.finish := by
  refine yields_bind fun version => yields_bind fun family => yields_bind fun capturedAt => ?_
  exact (yields_require h).bind fun cases hcases => yields_ok hcases

theorem yields_ofDocument {d : Document} (fits : Fits d) :
    Yields (fun s => ∀ c ∈ s.cases, FloatFree c.inputs → c.Plain) (ofDocument d) := by
  have hstart : Draft.Proper {} := nofun
  have hrecord : Yields Draft.Proper (readRecord fieldNames Draft.step {} d) :=
    yields_readRecord hstart fits fun _ field _ h => h.step field
  exact hrecord.bind fun s hs => hs.finish

/-- A set that was read from a text, whatever its shape, and whose inputs have no floating numbers
is read back as it was from what is written for it, and the same is written for it again. -/
theorem reread_of_read {text : String} {s : FixtureSet} (hread : read text = .ok s)
    (free : ∀ c ∈ s.cases, FloatFree c.inputs) :
    read s.render = .ok s ∧ (read s.render).map render = .ok s.render := by
  have hplain : ∀ c ∈ s.cases, FloatFree c.inputs → c.Plain :=
    yields_readWith (fun _ => yields_ofDocument) text s hread
  have hback : read s.render = .ok s := read_render fun c hc => hplain c hc (free c hc)
  refine ⟨hback, ?_⟩
  rw [hback]
  rfl

def extremes : Json := .list [.ofInt (-9223372036854775808), .ofInt 18446744073709551615]

/-- A set as a list, with a case as a list and one as an object, both without what may be left out,
and the object with a field of another name. -/
def looseSample : Json := .list [.text "v1", .text "string", .text "", .list [
  .list [.text "first", .text "strlen", .text "", extremes, .text "\"\n"],
  .object [("remark", .null), ("expected_output", .text "2"),
    ("inputs", .object [("s", .text "ab"), ("n", .bool true)]), ("function", .text "strnlen"),
    ("name", .text "second")]]]

def strictSample : FixtureSet where
  version := "v1"
  family := "string"
  capturedAt := ""
  cases := [⟨"first", "strlen", "", extremes, "\"\n", 0⟩,
    ⟨"second", "strnlen", "", .object [("n", .bool true), ("s", .text "ab")], "2", 0⟩]

theorem spellable_looseSample : Spellable looseSample := by
  have hextremes : Spellable extremes := by
    refine .list ?_
    simp only [List.forall_mem_cons]
    exact ⟨.whole ⟨by decide, by decide⟩, .whole ⟨by decide, by decide⟩, nofun⟩
  have hfirst : Spellable
      (.list [.text "first", .text "strlen", .text "", extremes, .text "\"\n"]) := by
    refine .list ?_
    simp only [List.forall_mem_cons]
    exact ⟨.text _, .text _, .text _, hextremes, .text _, nofun⟩
  have hinputs : Spellable (.object [("s", .text "ab"), ("n", .bool true)]) := by
    refine .object ?_
    simp only [List.forall_mem_cons]
    exact ⟨.text _, .bool _, nofun⟩
  have hsecond : Spellable (.object [("remark", .null), ("expected_output", .text "2"),
      ("inputs", .object [("s", .text "ab"), ("n", .bool true)]), ("function", .text "strnlen"),
      ("name", .text "second")]) := by
    refine .object ?_
    simp only [List.forall_mem_cons]
    exact ⟨.null, .text _, hinputs, .text _, .text _, nofun⟩
  have hcases := Spellable.list <|
    List.forall_mem_cons.2 ⟨hfirst, List.forall_mem_singleton.2 hsecond⟩
  refine .list ?_
  simp only [List.forall_mem_cons]
  exact ⟨.text _, .text _, .text _, hcases, nofun⟩

theorem reread_of_read_loose :
    read looseSample.pretty = .ok strictSample ∧ (∀ c ∈ strictSample.cases, FloatFree c.inputs) ∧
      read strictSample.render = .ok strictSample := by
  have hread : read looseSample.pretty = .ok strictSample :=
    spellable_looseSample.readWith_pretty rfl
  have hfirst : FloatFree extremes := by
    refine .list ?_
    simp only [List.forall_mem_cons]
    exact ⟨.whole _, .whole _, nofun⟩
  have hsecond : FloatFree (.object [("n", .bool true), ("s", .text "ab")]) := by
    refine .object ?_
    simp only [List.forall_mem_cons]
    exact ⟨.bool _, .text _, nofun⟩
  have free : ∀ c ∈ strictSample.cases, FloatFree c.inputs :=
    List.forall_mem_cons.2 ⟨hfirst, List.forall_mem_singleton.2 hsecond⟩
  exact ⟨hread, free, (reread_of_read hread free).1⟩

end FixtureSet

end CText.Conformance
