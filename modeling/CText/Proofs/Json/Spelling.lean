import CText.Proofs.Json.Scalars
import Mathlib.Algebra.Ring.Int.Defs
import Mathlib.Data.List.DropRight

/-!
# The texts of a document

A document of which nothing is broken, and whose numbers are whole numbers of 64 bits, has texts
that spell it: the scalars as they are written, lists and objects with commas between their parts,
and blanks around any part. Whatever text spells a document is taken apart into it.
-/

namespace CText.Json

def Blank (w : List Char) : Prop := ∀ c ∈ w, isSpace c = true

theorem Blank.nil : Blank [] := fun _ h => nomatch h

/-- A whole number that 64 bits can hold, with or without a sign. -/
def InWord (n : Int) : Prop := -2 ^ 63 ≤ n ∧ n < 2 ^ 64

mutual

/-- The texts of a document, without blanks at their ends. -/
inductive Spells : Document → List Char → Prop
  | null : Spells .null "null".toList
  | bool (b : Bool) : Spells (.bool b) (if b then "true" else "false").toList
  | whole {n : Int} (range : InWord n) :
      Spells (.number (some (.whole n))) (Number.whole n).chars
  | text (s : String) : Spells (.text (some s)) (quoted s)
  | emptyList {w : List Char} (blank : Blank w) : Spells (.list [] .closed) ('[' :: (w ++ [']']))
  | list {items : List Document} {s : List Char} (spelled : SpellsItems items s) :
      Spells (.list items .closed) ('[' :: (s ++ [']']))
  | emptyObject {w : List Char} (blank : Blank w) :
      Spells (.object [] .closed) ('\x7b' :: (w ++ ['\x7d']))
  | object {members : List (Option String × Document)} {s : List Char}
      (spelled : SpellsMembers members s) :
      Spells (.object members .closed) ('\x7b' :: (s ++ ['\x7d']))

/-- The texts of a document with blanks around it. -/
inductive SpellsAmid : Document → List Char → Prop
  | blanks {before s after : List Char} {d : Document} (hbefore : Blank before) (spelled : Spells d s)
      (hafter : Blank after) : SpellsAmid d (before ++ (s ++ after))

inductive SpellsItems : List Document → List Char → Prop
  | last {d : Document} {s : List Char} (item : SpellsAmid d s) : SpellsItems [d] s
  | more {d : Document} {items : List Document} {s t : List Char} (item : SpellsAmid d s)
      (others : SpellsItems items t) : SpellsItems (d :: items) (s ++ ',' :: t)

inductive SpellsMembers : List (Option String × Document) → List Char → Prop
  | last {key : String} {d : Document} {before s : List Char} (hbefore : Blank before)
      (value : SpellsAmid d s) :
      SpellsMembers [(some key, d)] (before ++ (quoted key ++ ':' :: s))
  | more {key : String} {d : Document} {members : List (Option String × Document)}
      {before s t : List Char} (hbefore : Blank before) (value : SpellsAmid d s)
      (others : SpellsMembers members t) :
      SpellsMembers ((some key, d) :: members) (before ++ (quoted key ++ ':' :: (s ++ ',' :: t)))

end

/-! ## Blanks -/

theorem skipSpace_append {w : List Char} (h : Blank w) (s : List Char) :
    skipSpace (w ++ s) = skipSpace s :=
  List.dropWhile_append_of_pos h

@[simp] theorem skipSpace_cons {c : Char} (h : isSpace c = false) (s : List Char) :
    skipSpace (c :: s) = c :: s := by
  simp [skipSpace, h]

theorem skipSpace_skipSpace (s : List Char) : skipSpace (skipSpace s) = skipSpace s :=
  List.dropWhile_idempotent _ s

theorem takeValue_skipSpace (steps : Nat) (s : List Char) :
    takeValue steps (skipSpace s) = takeValue steps s := by
  cases steps with
  | zero => rfl
  | succ steps => rw [takeValue, takeValue, skipSpace_skipSpace]

theorem takeItem_skipSpace (steps : Nat) (s : List Char) :
    takeItem steps (skipSpace s) = takeItem steps s := by
  cases steps with
  | zero => rfl
  | succ steps => rw [takeItem, takeItem, takeValue_skipSpace]

/-! ## Scalars -/

theorem Number.chars_of_nonneg {n : Int} (h : 0 ≤ n) :
    (Number.whole n).chars = Nat.toDigits 10 n.toNat := by
  rw [chars, Int.toString_eq_repr, Int.repr_eq_if, if_pos h, Nat.toList_repr]

theorem Number.chars_of_neg {n : Int} (h : n < 0) :
    (Number.whole n).chars = '-' :: Nat.toDigits 10 (-n).toNat := by
  rw [chars, Int.toString_eq_repr, Int.repr_eq_if, if_neg (by omega), String.toList_append,
    Nat.toList_repr]
  rfl

theorem exists_digit (n : Nat) : ∃ c s, Nat.toDigits 10 n = c :: s ∧ isDigit c = true := by
  cases h : Nat.toDigits 10 n with
  | nil => exact absurd h Nat.toDigits_ne_nil
  | cons c s => exact ⟨c, s, rfl, isDigit_of_mem_toDigits (h ▸ List.mem_cons_self)⟩

/-- A digit begins nothing but a number. -/
theorem ne_of_isDigit {c : Char} (h : isDigit c = true) :
    isSpace c = false ∧ c ≠ '\"' ∧ c ≠ '[' ∧ c ≠ '\x7b' ∧ c ≠ 'n' ∧ c ≠ 't' ∧ c ≠ 'f' ∧ c ≠ '-' ∧
      c ≠ ']' := by
  have hspace : isSpace c = false := by
    by_contra hblank
    simp only [isSpace, Bool.not_eq_false, Bool.or_eq_true, beq_iff_eq] at hblank
    rcases hblank with ((rfl | rfl) | rfl) | rfl <;> exact absurd h (by decide)
  refine ⟨hspace, ?_⟩
  refine ⟨?_, ?_, ?_, ?_, ?_, ?_, ?_, ?_⟩ <;> rintro rfl <;> exact absurd h (by decide)

theorem takeValue_whole {n : Int} (range : InWord n) (steps : Nat) {rest : List Char}
    (h : Stops rest) :
    takeValue (steps + 1) ((Number.whole n).chars ++ rest) =
      (.number (some (.whole n)), some rest) := by
  obtain ⟨hlow, hhigh⟩ := range
  by_cases hsign : 0 ≤ n
  · have hread := readNumeral_toDigits false n.toNat h
    rw [wholeOf_toDigits (by omega), Int.toNat_of_nonneg hsign] at hread
    rw [Number.chars_of_nonneg hsign]
    obtain ⟨c, s, hs, hc⟩ := exists_digit n.toNat
    obtain ⟨hspace, h1, h2, h3, h4, h5, h6, h7, -⟩ := ne_of_isDigit hc
    rw [hs, List.cons_append] at hread ⊢
    simp only [takeValue, skipSpace_cons hspace, if_neg h1, if_neg h2, if_neg h3, if_neg h4,
      if_neg h5, if_neg h6, if_neg h7, if_pos hc, hread]
    rfl
  · have hread := readNumeral_toDigits true (-n).toNat h
    rw [wholeOf_neg_toDigits (by omega) (by omega), Int.toNat_of_nonneg (by omega),
      Int.neg_neg] at hread
    rw [Number.chars_of_neg (by omega), List.cons_append, takeValue, skipSpace_cons (by decide)]
    simp only [hread]
    rfl

theorem takeValue_quoted (s : String) (steps : Nat) (rest : List Char) :
    takeValue (steps + 1) (quoted s ++ rest) = (.text (some s), some rest) := by
  have hread := readQuoted_escaped s.toList rest
  simp only [quoted, List.cons_append, List.append_assoc, List.nil_append, takeValue,
    skipSpace_cons (show isSpace '\"' = false by decide), if_pos, hread]
  simp

/-- The text of a document begins with something that closes nothing. -/
theorem Spells.head {d : Document} {s : List Char} (h : Spells d s) :
    ∃ c t, s = c :: t ∧ isSpace c = false ∧ c ≠ ']' := by
  cases h with
  | null => exact ⟨_, _, rfl, by decide, by decide⟩
  | bool b => cases b <;> exact ⟨_, _, rfl, by decide, by decide⟩
  | @whole n range =>
    by_cases hsign : 0 ≤ n
    · obtain ⟨c, t, ht, hc⟩ := exists_digit n.toNat
      obtain ⟨hspace, -, -, -, -, -, -, -, hclose⟩ := ne_of_isDigit hc
      exact ⟨c, t, by rw [Number.chars_of_nonneg hsign, ht], hspace, hclose⟩
    · exact ⟨'-', _, Number.chars_of_neg (by omega), by decide, by decide⟩
  | text s => exact ⟨_, _, rfl, by decide, by decide⟩
  | emptyList blank => exact ⟨_, _, rfl, by decide, by decide⟩
  | list spelled => exact ⟨_, _, rfl, by decide, by decide⟩
  | emptyObject blank => exact ⟨_, _, rfl, by decide, by decide⟩
  | object spelled => exact ⟨_, _, rfl, by decide, by decide⟩

/-! ## Lists and objects -/

theorem stops_nil : Stops [] := fun _ h => nomatch h

theorem stops_cons {c : Char} (h : c = ',' ∨ c = ']' ∨ c = '\x7d') (rest : List Char) :
    Stops (c :: rest) := by
  intro c' hc'
  cases hc'
  rcases h with rfl | rfl | rfl <;> decide

theorem stops_blank {w : List Char} (h : Blank w) {rest : List Char} (hrest : Stops rest) :
    Stops (w ++ rest) := by
  cases w with
  | nil => exact hrest
  | cons c w =>
    intro c' hc'
    cases hc'
    have hblank := h c List.mem_cons_self
    simp only [isSpace, Bool.or_eq_true, beq_iff_eq] at hblank
    rcases hblank with ((rfl | rfl) | rfl) | rfl <;> decide

theorem SpellsItems.head {items : List Document} {s : List Char} (h : SpellsItems items s)
    (rest : List Char) : ∃ c t, skipSpace (s ++ rest) = c :: t ∧ isSpace c = false ∧ c ≠ ']' := by
  have amid {d : Document} {s : List Char} (h : SpellsAmid d s) (rest : List Char) :
      ∃ c t, skipSpace (s ++ rest) = c :: t ∧ isSpace c = false ∧ c ≠ ']' := by
    obtain ⟨hbefore, spelled, -⟩ := h
    obtain ⟨c, t, rfl, hspace, hclose⟩ := spelled.head
    rw [List.append_assoc, skipSpace_append hbefore]
    exact ⟨c, _, skipSpace_cons hspace _, hspace, hclose⟩
  cases h with
  | last item => exact amid item rest
  | more item others =>
    rw [List.append_assoc]
    exact amid item _

/-- A list that is not empty begins with an item. -/
theorem SpellsItems.takeItems_first {items : List Document} {s : List Char}
    (h : SpellsItems items s) (steps : Nat) (rest : List Char) :
    takeItems (steps + 1) true (s ++ rest) = takeItem steps (s ++ rest) := by
  obtain ⟨c, t, hs, -, hc⟩ := h.head rest
  rw [← takeItem_skipSpace, takeItems, hs]
  simp only [if_neg hc, if_pos]

/-- A comma is followed by the next item. -/
theorem SpellsItems.takeItems_comma {items : List Document} {s r rest : List Char}
    (h : SpellsItems items s) (hr : skipSpace r = ',' :: (s ++ rest)) (steps : Nat) :
    takeItems (steps + 1) false r = takeItem steps (s ++ rest) := by
  obtain ⟨c, t, hs, -, hc⟩ := h.head rest
  rw [takeItems, hr]
  simp [hs, hc]

/-- A bracket ends a list. -/
theorem takeItems_close {r rest : List Char} (hr : skipSpace r = ']' :: rest) (steps : Nat)
    (first : Bool) : takeItems (steps + 1) first r = ([], .closed, some rest) := by
  rw [takeItems, hr]
  simp

/-- A brace ends an object. -/
theorem takeMembers_close {r rest : List Char} (hr : skipSpace r = '\x7d' :: rest) (steps : Nat)
    (first : Bool) : takeMembers (steps + 1) first r = ([], .closed, some rest) := by
  rw [takeMembers, hr]
  simp

/-- A comma is followed by the next member. -/
theorem takeMembers_comma {r rest : List Char} (hr : skipSpace r = ',' :: rest) (steps : Nat) :
    takeMembers (steps + 1) false r = takeMember steps (skipSpace rest) := by
  rw [takeMembers, hr]
  simp

theorem skipSpace_member {before : List Char} (h : Blank before) (key : String) (s : List Char) :
    skipSpace (before ++ (quoted key ++ s)) = quoted key ++ s := by
  rw [skipSpace_append h]
  exact skipSpace_cons (by decide) _

/-- An object that is not empty begins with a member. -/
theorem SpellsMembers.takeMembers_first {members : List (Option String × Document)}
    {s : List Char} (h : SpellsMembers members s) (steps : Nat) (rest : List Char) :
    takeMembers (steps + 1) true (s ++ rest) = takeMember steps (skipSpace (s ++ rest)) := by
  have first {before : List Char} (h : Blank before) (key : String) (s : List Char) :
      takeMembers (steps + 1) true (before ++ (quoted key ++ s)) =
        takeMember steps (skipSpace (before ++ (quoted key ++ s))) := by
    rw [takeMembers, skipSpace_member h]
    rfl
  cases h with
  | last hbefore value =>
    rw [List.append_assoc, List.append_assoc]
    exact first hbefore _ _
  | more hbefore value others =>
    rw [List.append_assoc, List.append_assoc]
    exact first hbefore _ _

/-- A key, a colon and a value make a member. -/
theorem takeMember_member {key : String} {d : Document} {s r : List Char} {steps : Nat}
    (h : takeValue steps s = (d, some r)) :
    takeMember (steps + 1) (quoted key ++ ':' :: s) =
      ((some key, d) :: (takeMembers steps false r).1, (takeMembers steps false r).2) := by
  have hread := readQuoted_escaped key.toList (':' :: s)
  simp only [quoted, List.cons_append, List.append_assoc, List.nil_append, takeMember, if_pos,
    hread, skipSpace_cons (show isSpace ':' = false by decide), h]
  simp

mutual

/-- What spells a document is taken apart into it. -/
theorem Spells.takeValue_eq {d : Document} {s : List Char} (h : Spells d s) (steps : Nat)
    (hsteps : 3 * s.length ≤ steps) {rest : List Char} (hrest : Stops rest) :
    takeValue steps (s ++ rest) = (d, some rest) := by
  obtain ⟨steps, rfl⟩ : ∃ k, steps = k + 1 := by
    obtain ⟨c, t, rfl, -⟩ := h.head
    rw [List.length_cons] at hsteps
    exact ⟨steps - 1, by omega⟩
  cases h with
  | null => rfl
  | bool b => cases b <;> rfl
  | whole range => exact takeValue_whole range steps hrest
  | text s => exact takeValue_quoted s steps rest
  | @emptyList w blank =>
    obtain ⟨steps, rfl⟩ : ∃ k, steps = k + 1 := ⟨steps - 1, by simp at hsteps; omega⟩
    have hclose := takeItems_close (r := w ++ ']' :: rest) (skipSpace_append blank _) steps true
    simp [takeValue, skipSpace_cons (show isSpace '[' = false by decide), hclose]
  | @list items s spelled =>
    simp only [List.length_cons, List.length_append, List.length_nil] at hsteps
    obtain ⟨steps, rfl⟩ : ∃ k, steps = k + 1 := ⟨steps - 1, by omega⟩
    have hitems := spelled.takeItem_eq steps (by omega) rest
    rw [← spelled.takeItems_first] at hitems
    simp [takeValue, skipSpace_cons (show isSpace '[' = false by decide), hitems]
  | @emptyObject w blank =>
    obtain ⟨steps, rfl⟩ : ∃ k, steps = k + 1 := ⟨steps - 1, by simp at hsteps; omega⟩
    have hclose := takeMembers_close (r := w ++ '\x7d' :: rest) (skipSpace_append blank _) steps
      true
    simp [takeValue, skipSpace_cons (show isSpace '\x7b' = false by decide), hclose]
  | @object members s spelled =>
    simp only [List.length_cons, List.length_append, List.length_nil] at hsteps
    obtain ⟨steps, rfl⟩ : ∃ k, steps = k + 1 := ⟨steps - 1, by omega⟩
    have hmembers := spelled.takeMember_eq steps (by omega) rest
    rw [← spelled.takeMembers_first] at hmembers
    simp [takeValue, skipSpace_cons (show isSpace '\x7b' = false by decide), hmembers]

/-- Of what spells a document with blanks around it, only blanks are left over. -/
theorem SpellsAmid.takeValue_eq {d : Document} {s : List Char} (h : SpellsAmid d s) (steps : Nat)
    (hsteps : 3 * s.length ≤ steps) {rest : List Char} (hrest : Stops rest) :
    ∃ r, takeValue steps (s ++ rest) = (d, some r) ∧ skipSpace r = skipSpace rest := by
  obtain ⟨hbefore, spelled, hafter⟩ := h
  simp only [List.length_append] at hsteps
  refine ⟨_, ?_, skipSpace_append hafter rest⟩
  rw [← takeValue_skipSpace, List.append_assoc, skipSpace_append hbefore, takeValue_skipSpace,
    List.append_assoc]
  exact spelled.takeValue_eq steps (by omega) (stops_blank hafter hrest)

/-- What spells the items of a list is taken apart into them. -/
theorem SpellsItems.takeItem_eq {items : List Document} {s : List Char} (h : SpellsItems items s)
    (steps : Nat) (hsteps : 3 * s.length + 2 ≤ steps) (rest : List Char) :
    takeItem steps (s ++ ']' :: rest) = (items, .closed, some rest) := by
  obtain ⟨steps, rfl⟩ : ∃ k, steps = k + 2 := ⟨steps - 2, by omega⟩
  cases h with
  | last item =>
    obtain ⟨r, hvalue, hr⟩ := item.takeValue_eq (steps + 1) (by omega)
      (stops_cons (.inr (.inl rfl)) rest)
    simp [takeItem, hvalue, takeItems_close hr]
  | @more d items s t item others =>
    simp only [List.length_append, List.length_cons] at hsteps
    obtain ⟨r, hvalue, hr⟩ := item.takeValue_eq (steps + 1) (by omega)
      (stops_cons (.inl rfl) (t ++ ']' :: rest))
    have hothers := others.takeItem_eq steps (by omega) rest
    rw [← others.takeItems_comma hr] at hothers
    simp [takeItem, hvalue, hothers]

/-- What spells the members of an object is taken apart into them. -/
theorem SpellsMembers.takeMember_eq {members : List (Option String × Document)} {s : List Char}
    (h : SpellsMembers members s) (steps : Nat) (hsteps : 3 * s.length + 2 ≤ steps)
    (rest : List Char) :
    takeMember steps (skipSpace (s ++ '\x7d' :: rest)) = (members, .closed, some rest) := by
  obtain ⟨steps, rfl⟩ : ∃ k, steps = k + 2 := ⟨steps - 2, by omega⟩
  cases h with
  | @last key d before s hbefore value =>
    simp only [List.length_append, List.length_cons] at hsteps
    obtain ⟨r, hvalue, hr⟩ := value.takeValue_eq (steps + 1) (by omega)
      (stops_cons (.inr (.inr rfl)) rest)
    rw [List.append_assoc, List.append_assoc, skipSpace_member hbefore, List.cons_append,
      takeMember_member hvalue, takeMembers_close hr]
  | @more key d members before s t hbefore value others =>
    simp only [List.length_append, List.length_cons] at hsteps
    obtain ⟨r, hvalue, hr⟩ := value.takeValue_eq (steps + 1) (by omega)
      (stops_cons (.inl rfl) (t ++ '\x7d' :: rest))
    have hothers := others.takeMember_eq steps (by omega) rest
    rw [← takeMembers_comma hr] at hothers
    rw [List.append_assoc, List.append_assoc, skipSpace_member hbefore, List.cons_append,
      List.append_assoc, List.cons_append, takeMember_member hvalue, hothers]

end

/-- What spells a document is a clean text of it. -/
theorem Spells.ofChars_eq {d : Document} {s : List Char} (h : Spells d s) :
    Text.ofChars s = ⟨d, true⟩ := by
  have htake := h.takeValue_eq (3 * s.length + 1) (by omega) (stops_nil)
  rw [List.append_nil] at htake
  simp [Text.ofChars, htake, skipSpace]

end CText.Json
