import CText.Proofs.Json.Plain
import Mathlib.Data.String.Basic

/-!
# Values that were read can be read back

Whatever a text holds, the whole numbers in its document are numbers of 64 bits, and the members of
the objects that are read from it are sorted by key. A value that was read and holds no floating
number is therefore read back from what is written for it.
-/

namespace CText.Json

/-! ## Whole numbers of a document -/

/-- A number that is not a whole one outside of 64 bits. -/
def NumberFits (n : Option Number) : Prop := ∀ k, n = some (.whole k) → InWord k

/-- A document whose whole numbers are numbers of 64 bits. -/
inductive Fits : Document → Prop
  | null : Fits .null
  | bool (b : Bool) : Fits (.bool b)
  | number {n : Option Number} (fits : NumberFits n) : Fits (.number n)
  | text (s : Option String) : Fits (.text s)
  | list {items : List Document} {ending : Ending} (fits : ∀ d ∈ items, Fits d) :
      Fits (.list items ending)
  | object {members : List (Option String × Document)} {ending : Ending}
      (fits : ∀ member ∈ members, Fits member.2) : Fits (.object members ending)
  | broken (reading passing : Fault) : Fits (.broken reading passing)

theorem numberFits_floatOf (negative : Bool) (whole fraction : List Char) (exponent : Int) :
    NumberFits (floatOf negative whole fraction exponent) := by
  intro k hk
  obtain ⟨x, -, hx⟩ := Option.map_eq_some_iff.1 hk
  cases hx

theorem numberFits_wholeOf (negative : Bool) (digits : List Char) :
    NumberFits (wholeOf negative digits) := by
  rw [wholeOf]
  split_ifs with hpositive hnegative
  · rintro k ⟨⟩
    have hlimit : digitsValue digits < 2 ^ 64 := hpositive.2
    constructor <;> omega
  · rintro k ⟨⟩
    have hlimit : digitsValue digits ≤ 2 ^ 63 := hnegative.2.2
    constructor <;> omega
  · exact numberFits_floatOf _ _ _ _

def Numeral.Fits : Numeral → Prop
  | whole n _ => NumberFits n
  | cut _ _ => True

theorem fits_missingDigit (rest : List Char) : (missingDigit rest).Fits := trivial

theorem fits_readExponent (negative : Bool) (whole : List Char) (fraction : Option (List Char))
    (s : List Char) : (readExponent negative whole fraction s).Fits := by
  have hscaled (power : Int) (digits after : List Char) :
      (if digits.isEmpty then missingDigit after
        else .whole (floatOf negative whole (fraction.getD []) power) after).Fits := by
    split_ifs
    · exact fits_missingDigit after
    · exact numberFits_floatOf _ _ _ _
  cases s with
  | nil =>
    cases fraction with
    | none => exact numberFits_wholeOf _ _
    | some fraction => exact numberFits_floatOf _ _ _ _
  | cons c rest =>
    by_cases hmark : c = 'e' ∨ c = 'E'
    · simp only [readExponent, if_pos hmark]
      exact hscaled _ _ _
    · simp only [readExponent, if_neg hmark]
      cases fraction with
      | none => exact numberFits_wholeOf _ _
      | some fraction => exact numberFits_floatOf _ _ _ _

theorem fits_readNumeral (negative : Bool) (s : List Char) : (readNumeral negative s).Fits := by
  simp only [readNumeral]
  split_ifs
  · exact fits_missingDigit _
  · trivial
  · split
    · split_ifs
      · exact fits_missingDigit _
      · exact fits_readExponent _ _ _ _
    · exact fits_readExponent _ _ _ _

theorem Numeral.Fits.document {n : Numeral} (h : n.Fits) : Json.Fits n.document.1 := by
  cases n with
  | whole n rest => exact .number h
  | cut reading passing => exact .broken reading passing

theorem fits_readConstant {d : Document} (h : Fits d) (word : String) (s : List Char) :
    Fits (readConstant word d s).1 := by
  unfold readConstant
  split
  · exact h
  · exact .broken _ _

/-- What is taken apart in a number of steps fits. -/
structure TakesFitting (steps : Nat) : Prop where
  value : ∀ s, Fits (takeValue steps s).1
  items : ∀ first s, ∀ d ∈ (takeItems steps first s).1, Fits d
  item : ∀ s, ∀ d ∈ (takeItem steps s).1, Fits d
  members : ∀ first s, ∀ member ∈ (takeMembers steps first s).1, Fits member.2
  member : ∀ s, ∀ member ∈ (takeMember steps s).1, Fits member.2

theorem takesFitting_zero : TakesFitting 0 where
  value _ := .broken _ _
  items _ _ _ h := nomatch h
  item _ _ h := nomatch h
  members _ _ _ h := nomatch h
  member _ _ h := nomatch h

namespace TakesFitting

variable {steps : Nat} (fitting : TakesFitting steps)

include fitting

theorem takeValue_succ (s : List Char) : Fits (takeValue (steps + 1) s).1 := by
  rw [takeValue]
  split
  · exact .broken _ _
  next c rest _ =>
    split_ifs
    · split
      · exact .text _
      · exact .broken _ _
    · exact .list (fitting.items true rest)
    · exact .object (fitting.members true rest)
    · exact fits_readConstant .null _ _
    · exact fits_readConstant (.bool true) _ _
    · exact fits_readConstant (.bool false) _ _
    · exact (fits_readNumeral _ _).document
    · exact (fits_readNumeral _ _).document
    · exact .broken _ _

theorem takeItems_succ (first : Bool) (s : List Char) :
    ∀ d ∈ (takeItems (steps + 1) first s).1, Fits d := by
  rw [takeItems]
  split
  · simp
  next c rest _ =>
    split_ifs
    · simp
    · exact fitting.item _
    · rw [List.forall_mem_singleton]
      exact .broken _ _
    · exact fitting.item _
    · simp

theorem takeItem_succ (s : List Char) : ∀ d ∈ (takeItem (steps + 1) s).1, Fits d := by
  have hvalue := fitting.value s
  rw [takeItem]
  split
  next d hd =>
    rw [hd] at hvalue
    rw [List.forall_mem_singleton]
    exact hvalue
  next d rest hd =>
    rw [hd] at hvalue
    rw [List.forall_mem_cons]
    exact ⟨hvalue, fitting.items false rest⟩

theorem takeMembers_succ (first : Bool) (s : List Char) :
    ∀ member ∈ (takeMembers (steps + 1) first s).1, Fits member.2 := by
  rw [takeMembers]
  split
  · simp
  next c rest _ =>
    split_ifs
    · simp
    · exact fitting.member _
    · exact fitting.member _
    · simp

theorem takeMember_succ (s : List Char) :
    ∀ member ∈ (takeMember (steps + 1) s).1, Fits member.2 := by
  cases s with
  | nil => simp [takeMember]
  | cons c rest =>
    rw [takeMember]
    split_ifs
    · split
      · simp
      next key rest _ =>
        split
        · rw [List.forall_mem_singleton]
          exact .broken _ _
        next c rest _ =>
          split_ifs
          · have hvalue := fitting.value rest
            split
            next d hd =>
              rw [hd] at hvalue
              rw [List.forall_mem_singleton]
              exact hvalue
            next d rest hd =>
              rw [hd] at hvalue
              rw [List.forall_mem_cons]
              exact ⟨hvalue, fitting.members false rest⟩
          · rw [List.forall_mem_singleton]
            exact .broken _ _
    · simp

end TakesFitting

theorem takesFitting (steps : Nat) : TakesFitting steps := by
  induction steps with
  | zero => exact takesFitting_zero
  | succ steps ih =>
    exact ⟨ih.takeValue_succ, ih.takeItems_succ, ih.takeItem_succ, ih.takeMembers_succ,
      ih.takeMember_succ⟩

/-- The whole numbers in the document of a text are numbers of 64 bits. -/
theorem fits_ofChars (s : List Char) : Fits (Text.ofChars s).document :=
  (takesFitting (3 * s.length + 1)).value s

/-! ## Values -/

inductive FloatFree : Json → Prop
  | null : FloatFree .null
  | bool (b : Bool) : FloatFree (.bool b)
  | whole (n : Int) : FloatFree (.number (.whole n))
  | text (s : String) : FloatFree (.text s)
  | list {items : List Json} (free : ∀ item ∈ items, FloatFree item) : FloatFree (.list items)
  | object {members : List (String × Json)} (free : ∀ member ∈ members, FloatFree member.2) :
      FloatFree (.object members)

theorem mem_insertMember {key : String} {value : Json} {before : List (String × Json)}
    {member : String × Json} (h : member ∈ insertMember key value before) :
    member = (key, value) ∨ member ∈ before := by
  induction before with
  | nil => exact .inl (List.mem_singleton.1 h)
  | cons first before ih =>
    rw [insertMember] at h
    split_ifs at h with hless hequal
    · exact List.mem_cons.1 h
    · rcases List.mem_cons.1 h with heq | hmem
      · exact .inl heq
      · exact .inr (List.mem_cons_of_mem _ hmem)
    · rcases List.mem_cons.1 h with rfl | hmem
      · exact .inr List.mem_cons_self
      · exact (ih hmem).imp_right (List.mem_cons_of_mem _)

theorem sorted_insertMember {key : String} {value : Json} {before : List (String × Json)}
    (h : before.Pairwise (·.1 < ·.1)) :
    (insertMember key value before).Pairwise (·.1 < ·.1) := by
  induction before with
  | nil => exact List.pairwise_singleton _ _
  | cons first before ih =>
    rw [List.pairwise_cons] at h
    rw [insertMember]
    split_ifs with hless hequal
    · refine List.pairwise_cons.2 ⟨?_, List.pairwise_cons.2 h⟩
      rintro member hmember
      rcases List.mem_cons.1 hmember with rfl | hmem
      · exact hless
      · exact String.lt_trans hless (h.1 member hmem)
    · subst hequal
      exact List.pairwise_cons.2 h
    · refine List.pairwise_cons.2 ⟨?_, ih h.2⟩
      rintro member hmember
      rcases mem_insertMember hmember with rfl | hmem
      · exact lt_of_le_of_ne (not_lt.1 hless) (Ne.symm hequal)
      · exact h.1 member hmem

open Document

/-- The value read from a document, if it holds no floating number, can be read back. -/
def ReadsPlain (d : Document) : Prop :=
  ∀ depth j, readValue depth d = .ok j → FloatFree j → Plain depth j

theorem readItems_plain {items : List Document} (h : ∀ d ∈ items, ReadsPlain d) {depth : Nat}
    {ending : Ending} {found : List Json} (hread : readItems depth items ending = .ok found) :
    ∀ item ∈ found, FloatFree item → Plain depth item := by
  induction items generalizing found with
  | nil =>
    cases ending with
    | closed =>
      cases hread
      simp
    | cut reading passing => cases hread
  | cons d items ih =>
    rw [List.forall_mem_cons] at h
    rw [readItems] at hread
    split at hread
    next => cases hread
    next item hitem =>
      cases hrest : readItems depth items ending with
      | error fault =>
        rw [hrest] at hread
        cases hread
      | ok others =>
        rw [hrest] at hread
        cases hread
        rw [List.forall_mem_cons]
        exact ⟨h.1 depth item hitem, ih h.2 hrest⟩

theorem readMembers_plain {members : List (Option String × Document)}
    (h : ∀ member ∈ members, ReadsPlain member.2) {depth : Nat} {ending : Ending}
    {before found : List (String × Json)} (hread : readMembers depth members ending before = .ok found)
    (hplain : ∀ member ∈ before, FloatFree member.2 → Plain depth member.2)
    (hsorted : before.Pairwise (·.1 < ·.1)) :
    (∀ member ∈ found, FloatFree member.2 → Plain depth member.2) ∧
      found.Pairwise (·.1 < ·.1) := by
  induction members generalizing before with
  | nil =>
    cases ending with
    | closed =>
      cases hread
      exact ⟨hplain, hsorted⟩
    | cut reading passing => cases hread
  | cons first members ih =>
    rw [List.forall_mem_cons] at h
    obtain ⟨key, d⟩ := first
    cases key with
    | none => cases hread
    | some key =>
      rw [readMembers] at hread
      split at hread
      next => cases hread
      next value hvalue =>
        refine ih h.2 hread ?_ (sorted_insertMember hsorted)
        intro member hmember
        rcases mem_insertMember hmember with rfl | hmem
        · exact h.1 depth value hvalue
        · exact hplain member hmem

theorem readValue_list {items : List Document} {ending : Ending} {depth : Nat} {j : Json}
    (h : readValue depth (.list items ending) = .ok j) :
    ∃ limit found, depth = limit + 1 ∧ j = .list found ∧
      readItems limit items ending = .ok found := by
  cases depth with
  | zero => cases h
  | succ limit =>
    rw [readValue] at h
    cases hitems : readItems limit items ending with
    | error fault =>
      rw [hitems] at h
      cases h
    | ok found =>
      rw [hitems] at h
      cases h
      exact ⟨limit, found, rfl, rfl, hitems⟩

theorem readValue_object {members : List (Option String × Document)} {ending : Ending}
    {depth : Nat} {j : Json} (h : readValue depth (.object members ending) = .ok j) :
    ∃ limit found, depth = limit + 1 ∧ j = .object found ∧
      readMembers limit members ending [] = .ok found := by
  cases depth with
  | zero => cases h
  | succ limit =>
    rw [readValue] at h
    cases hmembers : readMembers limit members ending [] with
    | error fault =>
      rw [hmembers] at h
      cases h
    | ok found =>
      rw [hmembers] at h
      cases h
      exact ⟨limit, found, rfl, rfl, hmembers⟩

theorem Fits.readsPlain {d : Document} (h : Fits d) : ReadsPlain d := by
  induction h with
  | null =>
    rintro depth j ⟨⟩ -
    exact .null
  | bool b =>
    rintro depth j ⟨⟩ -
    exact .bool b
  | @number n fits =>
    cases n with
    | none => rintro depth j ⟨⟩
    | some n =>
      rintro depth j ⟨⟩ hfree
      cases hfree with
      | whole n => exact .whole (fits n rfl)
  | text s =>
    cases s with
    | none => rintro depth j ⟨⟩
    | some s =>
      rintro depth j ⟨⟩ -
      exact .text s
  | list fits ih =>
    rintro depth j hread hfree
    obtain ⟨limit, found, rfl, rfl, hitems⟩ := readValue_list hread
    cases hfree with
    | list free => exact .list fun item h => readItems_plain ih hitems item h (free item h)
  | object fits ih =>
    rintro depth j hread hfree
    obtain ⟨limit, found, rfl, rfl, hmembers⟩ := readValue_object hread
    obtain ⟨hplain, hsorted⟩ := readMembers_plain ih hmembers (by simp) .nil
    cases hfree with
    | object free => exact .object (fun member h => hplain member h (free member h)) hsorted
  | broken reading passing => rintro depth j ⟨⟩

/-- What was read from a text was read from its document. -/
theorem reader_of_readWith {α : Type} {reader : Document → Except Fault α} {s : String} {a : α}
    (h : readWith reader s = .ok a) : reader (Text.ofChars s.toList).document = .ok a := by
  rw [readWith] at h
  cases hvalue : reader (Text.ofChars s.toList).document with
  | error fault =>
    simp only [hvalue] at h
    cases h
  | ok value =>
    simp only [hvalue, bind, Except.bind] at h
    split_ifs at h
    exact h

/-- Among the members of an object that was read, those without floating numbers can be read
back. -/
theorem plain_of_read_object {s : String} {members : List (String × Json)}
    (h : read s = .ok (.object members)) :
    ∀ member ∈ members, FloatFree member.2 → Plain (depthLimit - 1) member.2 := by
  have hvalue := reader_of_readWith h
  have hfits := fits_ofChars s.toList
  generalize (Text.ofChars s.toList).document = d at hvalue hfits
  cases hfits with
  | @object read ending fits =>
    obtain ⟨limit, found, hlimit, hfound, hmembers⟩ := readValue_object hvalue
    cases hfound
    rw [hlimit]
    have hplain : ∀ member ∈ read, ReadsPlain member.2 := fun member h =>
      (fits member h).readsPlain
    exact (readMembers_plain hplain hmembers (by simp) .nil).1
  | list fits =>
    obtain ⟨limit, found, -, hfound, -⟩ := readValue_list hvalue
    cases hfound
  | @number n fits => cases n <;> cases hvalue
  | text t => cases t <;> cases hvalue
  | _ => cases hvalue

end CText.Json
