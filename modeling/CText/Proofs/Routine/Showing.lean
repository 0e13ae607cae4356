import CText.Conformance.Verdict
import CText.Proofs.Checked.CString
import CText.Proofs.Text.Utf8
import Mathlib.Data.List.Forall2

/-!
# What an output tells of the bytes or units shown

Bytes that are a text are shown as that text, and others by their digits behind a mark. The mark is
not set apart from texts, so the digits of bytes that are no text may be a text of their own; apart
from this, different bytes are shown differently. Wide units that are no characters are all shown as
the replacement character; apart from this, strings of different units are shown differently. A case
that expects an output passes on just those results that are shown as it.
-/

namespace CText

namespace Digest

theorem hexDigit_injective : ∀ m < 16, ∀ n < 16,
    (Nat.toDigits 16 m).headD '0' = (Nat.toDigits 16 n).headD '0' → m = n := by
  decide

theorem hex_cons (b : UInt8) (rest : List UInt8) :
    hex (b :: rest) = (Nat.toDigits 16 (b.toNat / 16)).headD '0' ::
      (Nat.toDigits 16 (b.toNat % 16)).headD '0' :: hex rest :=
  rfl

/-- Bytes are told by their digits. -/
theorem hex_injective {a b : List UInt8} (h : hex a = hex b) : a = b := by
  induction a generalizing b with
  | nil =>
    cases b with
    | nil => rfl
    | cons y b => cases h
  | cons x a ih =>
    cases b with
    | nil => cases h
    | cons y b =>
      rw [hex_cons, hex_cons, List.cons.injEq, List.cons.injEq] at h
      obtain ⟨hhigh, hlow, hrest⟩ := h
      have hx := x.toNat_lt
      have hy := y.toNat_lt
      have hdiv := hexDigit_injective _ (by omega) _ (by omega) hhigh
      have hmod := hexDigit_injective _ (by omega) _ (by omega) hlow
      have hbyte : x = y := by
        apply UInt8.toNat_inj.1
        omega
      rw [hbyte, ih hrest]

end Digest

namespace Routine

open CString

/-! ## Bytes -/

def IsText (bytes : List UInt8) : Prop := ∃ s, Utf8.bytes s = bytes

/-- The digits of bytes behind the mark for bytes that are no text. -/
def digitText (bytes : List UInt8) : String := "hex:" ++ String.ofList (Digest.hex bytes)

/-- Bytes that are the text by which other bytes, which are no text, are shown. -/
def Mimics (text bytes : List UInt8) : Prop := ¬ IsText bytes ∧ text = Utf8.bytes (digitText bytes)

theorem showBytes_bytes (s : String) : showBytes (Utf8.bytes s) = s := by
  rw [showBytes, Utf8.text?_bytes]

theorem showBytes_of_not_isText {bytes : List UInt8} (h : ¬ IsText bytes) :
    showBytes bytes = digitText bytes := by
  unfold showBytes
  split
  next s hs => exact absurd ⟨s, Utf8.bytes_of_text? hs⟩ h
  next => rfl

theorem not_isText_of_text? {bytes : List UInt8} (h : Utf8.text? bytes = none) :
    ¬ IsText bytes := by
  rintro ⟨s, rfl⟩
  rw [Utf8.text?_bytes] at h
  cases h

theorem digitText_injective {a b : List UInt8} (h : digitText a = digitText b) : a = b := by
  have hchars := congrArg String.toList h
  simp only [digitText, String.toList_append, String.toList_ofList,
    List.append_cancel_left_eq] at hchars
  exact Digest.hex_injective hchars

/-- Bytes are shown as a text just if they are its bytes, or are no text and it has their digits. -/
theorem showBytes_eq_iff (bytes : List UInt8) (s : String) :
    showBytes bytes = s ↔ bytes = Utf8.bytes s ∨ ¬ IsText bytes ∧ s = digitText bytes := by
  by_cases h : IsText bytes
  · obtain ⟨t, rfl⟩ := h
    rw [showBytes_bytes]
    constructor
    · rintro rfl
      exact .inl rfl
    · rintro (hbytes | ⟨hnone, -⟩)
      · rw [← showBytes_bytes t, hbytes, showBytes_bytes]
      · exact absurd ⟨t, rfl⟩ hnone
  · rw [showBytes_of_not_isText h]
    constructor
    · rintro rfl
      exact .inr ⟨h, rfl⟩
    · rintro (rfl | ⟨-, rfl⟩)
      · exact absurd ⟨s, rfl⟩ h
      · rfl

theorem showBytes_eq_showBytes_iff (a b : List UInt8) :
    showBytes a = showBytes b ↔ a = b ∨ Mimics a b ∨ Mimics b a := by
  by_cases hb : IsText b
  · obtain ⟨t, rfl⟩ := hb
    rw [showBytes_bytes, showBytes_eq_iff]
    constructor
    · rintro (rfl | ⟨ha, rfl⟩)
      · exact .inl rfl
      · exact .inr (.inr ⟨ha, rfl⟩)
    · rintro (rfl | ⟨hnone, -⟩ | ⟨ha, hbytes⟩)
      · exact .inl rfl
      · exact absurd ⟨t, rfl⟩ hnone
      · refine .inr ⟨ha, ?_⟩
        rw [← showBytes_bytes t, hbytes, showBytes_bytes]
  · rw [showBytes_of_not_isText hb, showBytes_eq_iff]
    constructor
    · rintro (rfl | ⟨ha, hdigits⟩)
      · exact .inr (.inl ⟨hb, rfl⟩)
      · exact .inl (digitText_injective hdigits.symm)
    · rintro (rfl | ⟨-, rfl⟩ | ⟨-, rfl⟩)
      · exact .inr ⟨hb, rfl⟩
      · exact .inl rfl
      · exact absurd ⟨_, rfl⟩ hb

/-! ## Units -/

/-- A unit that is shown as the replacement character: that character, or none at all. -/
def Blurred (u : UInt32) : Prop := ¬ u.toNat.isValidChar ∨ u = 0xFFFD

def Alike (u v : UInt32) : Prop := u = v ∨ Blurred u ∧ Blurred v

def shownUnit (u : UInt32) : Char := (Utf8.scalar? u.toNat).getD '\uFFFD'

theorem showWide_eq (s : List UInt32) :
    showWide s = .ok (String.ofList ((content s).map shownUnit)) := by
  rw [showWide, Checked.content_eq]
  rfl

theorem shownUnit_of_valid {u : UInt32} (h : u.toNat.isValidChar) :
    (shownUnit u).toNat = u.toNat := by
  rw [shownUnit, Utf8.scalar?, dif_pos h]
  rfl

theorem shownUnit_of_blurred {u : UInt32} (h : Blurred u) : shownUnit u = '\uFFFD' := by
  rcases h with hnone | rfl
  · rw [shownUnit, Utf8.scalar?, dif_neg hnone]
    rfl
  · rfl

theorem blurred_of_shownUnit {u : UInt32} (h : shownUnit u = '\uFFFD') : Blurred u := by
  by_cases hvalid : u.toNat.isValidChar
  · refine .inr (UInt32.toNat_inj.1 ?_)
    rw [← shownUnit_of_valid hvalid, h]
    rfl
  · exact .inl hvalid

theorem shownUnit_eq_iff (u : UInt32) (c : Char) :
    shownUnit u = c ↔ u.toNat = c.toNat ∨ Blurred u ∧ c = '\uFFFD' := by
  constructor
  · rintro rfl
    by_cases hvalid : u.toNat.isValidChar
    · exact .inl (shownUnit_of_valid hvalid).symm
    · exact .inr ⟨.inl hvalid, shownUnit_of_blurred (.inl hvalid)⟩
  · rintro (heq | ⟨hblurred, rfl⟩)
    · have hvalid : u.toNat.isValidChar := heq ▸ c.valid
      exact Char.toNat_inj.1 ((shownUnit_of_valid hvalid).trans heq)
    · exact shownUnit_of_blurred hblurred

theorem shownUnit_eq_shownUnit_iff (u v : UInt32) : shownUnit u = shownUnit v ↔ Alike u v := by
  constructor
  · intro h
    by_cases hv : Blurred v
    · exact .inr ⟨blurred_of_shownUnit (h.trans (shownUnit_of_blurred hv)), hv⟩
    · have hvalid : v.toNat.isValidChar := by
        by_contra hnone
        exact hv (.inl hnone)
      rcases (shownUnit_eq_iff u _).1 h with heq | ⟨hu, hreplaced⟩
      · exact .inl (UInt32.toNat_inj.1 (heq.trans (shownUnit_of_valid hvalid)))
      · exact absurd (blurred_of_shownUnit hreplaced) hv
  · rintro (rfl | ⟨hu, hv⟩)
    · rfl
    · rw [shownUnit_of_blurred hu, shownUnit_of_blurred hv]

theorem showWide_eq_ok_iff (s : List UInt32) (text : String) :
    showWide s = .ok text ↔
      List.Forall₂ (fun u c => u.toNat = c.toNat ∨ Blurred u ∧ c = '\uFFFD') (content s)
        text.toList := by
  simp only [← shownUnit_eq_iff]
  rw [showWide_eq, Except.ok.injEq, ← List.forall₂_map_left_iff (R := (· = ·)),
    List.forall₂_eq_eq_eq]
  constructor
  · rintro rfl
    rw [String.toList_ofList]
  · intro h
    rw [h, String.ofList_toList]

theorem showWide_eq_showWide_iff (s t : List UInt32) :
    showWide s = showWide t ↔ List.Forall₂ Alike (content s) (content t) := by
  have halike : Alike = fun u v => shownUnit u = shownUnit v := by
    funext u v
    exact propext (shownUnit_eq_shownUnit_iff u v).symm
  rw [halike, ← List.forall₂_map_left_iff (R := fun c v => c = shownUnit v),
    ← List.forall₂_map_right_iff (R := (· = ·)), List.forall₂_eq_eq_eq, showWide_eq, showWide_eq,
    Except.ok.injEq, String.ofList_inj]

end Routine

namespace Conformance

open Routine CString

/-- A case passes on an output just if it expects it, without an error number. -/
theorem passed_ok_iff (family : String) (c : FixtureCase) (output : String) :
    (Verdict.ofOutcome family c (.ok output)).passed = true ↔
      c.expectedErrno = 0 ∧ output = c.expectedOutput := by
  refine decide_eq_true_iff.trans ?_
  constructor
  · rintro ⟨houtput, herrno⟩
    exact ⟨herrno.symm, houtput⟩
  · rintro ⟨herrno, houtput⟩
    exact ⟨houtput, herrno.symm⟩

/-- The verdict on a case that can be executed is that on its outcome. -/
theorem ofCase_of_execute {c : FixtureCase} {outcome : Outcome}
    (h : execute c.function c.inputs = .ok outcome) (family : String) :
    Verdict.ofCase family c = .ok (.ofOutcome family c outcome) := by
  rw [Verdict.ofCase, outcomeOf, h]
  rfl

/-- Bytes are shown alike just if they are the same, or those of one are the text that the digits of
the other make and the other is no text. Wide strings are shown alike just if their contents are,
unit by unit, the same or units that are shown as the replacement character. A case whose routine
comes to bytes or to a wide string passes just on those that are shown as what it expects. -/
theorem shown_alike_iff :
    (∀ a b, showBytes a = showBytes b ↔ a = b ∨ Mimics a b ∨ Mimics b a) ∧
    (∀ s t, showWide s = showWide t ↔ List.Forall₂ Alike (content s) (content t)) ∧
    (∀ family c produced, execute c.function c.inputs = .ok (.ok (showBytes produced)) →
      ∃ v, Verdict.ofCase family c = .ok v ∧
        (v.passed = true ↔ c.expectedErrno = 0 ∧
          (produced = Utf8.bytes c.expectedOutput ∨
            ¬ IsText produced ∧ c.expectedOutput = digitText produced))) ∧
    (∀ family c units shown, showWide units = .ok shown →
      execute c.function c.inputs = .ok (.ok shown) →
      ∃ v, Verdict.ofCase family c = .ok v ∧
        (v.passed = true ↔ c.expectedErrno = 0 ∧
          List.Forall₂ (fun u char => u.toNat = char.toNat ∨ Blurred u ∧ char = '\uFFFD')
            (content units) c.expectedOutput.toList)) := by
  refine ⟨showBytes_eq_showBytes_iff, showWide_eq_showWide_iff, ?_, ?_⟩
  · intro family c produced h
    refine ⟨_, ofCase_of_execute h family, ?_⟩
    rw [passed_ok_iff, showBytes_eq_iff]
  · intro family c units shown hshown h
    refine ⟨_, ofCase_of_execute h family, ?_⟩
    rw [passed_ok_iff, ← showWide_eq_ok_iff, hshown, Except.ok.injEq]

def cleaningCase (path : Json) (expected : String) : FixtureCase :=
  ⟨"", "cleanname", "", .object [("path", path)], expected, 0⟩

def wideCopyCase (src : Json) (expected : String) : FixtureCase :=
  ⟨"", "wcscpy", "", .object [("src", src)], expected, 0⟩

/-- A byte that is no text passes for the text that its digits make, and a unit that is no character
for the replacement character. -/
theorem shown_alike_sample :
    (∃ v, Verdict.ofCase "path" (cleaningCase (.list [.ofNat 255]) "hex:ff") = .ok v ∧
      v.passed = true) ∧
    (∃ v, Verdict.ofCase "string" (wideCopyCase (.list [.ofNat 55296, .ofNat 0]) "\uFFFD") = .ok v ∧
      v.passed = true) := by
  constructor
  · obtain ⟨v, hv, hpassed⟩ :=
      shown_alike_iff.2.2.1 "path" (cleaningCase (.list [.ofNat 255]) "hex:ff") [255]
        (by decide +kernel)
    exact ⟨v, hv, hpassed.2 ⟨rfl, .inr ⟨not_isText_of_text? rfl, rfl⟩⟩⟩
  · obtain ⟨v, hv, hpassed⟩ :=
      shown_alike_iff.2.2.2 "string" (wideCopyCase (.list [.ofNat 55296, .ofNat 0]) "\uFFFD")
        [55296, 0] "\uFFFD" (by decide +kernel) (by decide +kernel)
    exact ⟨v, hv, hpassed.2 ⟨rfl, .cons (.inr ⟨.inl (by decide), rfl⟩) .nil⟩⟩

/-- A path that is the byte `ff` and one that is the text `hex:ff` are cleaned to results that are
shown alike, and so are the copies of a surrogate and of the replacement character. -/
theorem different_results_shown_alike :
    ([0xFF] ≠ Utf8.bytes "hex:ff" ∧ showBytes [0xFF] = showBytes (Utf8.bytes "hex:ff") ∧
      execute "cleanname" (.object [("path", .list [.ofNat 255])]) = .ok (.ok "hex:ff") ∧
      execute "cleanname" (.object [("path", .text "hex:ff")]) = .ok (.ok "hex:ff")) ∧
    (content [(0xD800 : UInt32)] ≠ content [0xFFFD] ∧ showWide [0xD800] = showWide [0xFFFD] ∧
      execute "wcscpy" (.object [("src", .list [.ofNat 55296, .ofNat 0])]) = .ok (.ok "\uFFFD") ∧
      execute "wcscpy" (.object [("src", .text "\uFFFD")]) = .ok (.ok "\uFFFD")) := by
  constructor
  · exact ⟨by decide, rfl, by decide +kernel, by decide +kernel⟩
  · exact ⟨by decide, rfl, by decide +kernel, by decide +kernel⟩

end Conformance

end CText
