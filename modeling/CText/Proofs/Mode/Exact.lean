import CText.Proofs.Mode.Notation
import CText.Unit
import Mathlib.Data.List.Basic

/-!
# Reading exact modes

A text has the outline of an exact mode if and only if it is one, and then it also has a mark of it:
where none of its positions is a minus sign, all three classes may read, and the letter for that is
repeated. So the reader of positions never meets a byte that it does not know.
-/

namespace CText.Mode

variable {who : Who} {s p : List UInt8}

/-! ## The outline -/

def allowedBytes (who : Who) : List (List UInt8) :=
  [[true, false].map (flagByte (Ascii.byte 'r')), [true, false].map (flagByte (Ascii.byte 'w')),
    [ExecMark.exec, .both, .special, .neither].map (·.byte who)]

theorem exactPositions_eq :
    exactPositions = allowedBytes .owner ++ (allowedBytes .group ++ allowedBytes .other) := by
  decide

/-- Whether every byte is allowed at its position. -/
def fits (p : List UInt8) (allowed : List (List UInt8)) : Bool :=
  (p.zip allowed).all fun (c, bytes) => bytes.contains c

theorem fits_append {q : List UInt8} {allowed others : List (List UInt8)}
    (h : p.length = allowed.length) :
    fits (p ++ q) (allowed ++ others) = (fits p allowed && fits q others) := by
  rw [fits, List.zip_append h, List.all_append]
  rfl

theorem Triple.fits_text (t : Triple) (who : Who) :
    fits (t.text who) (allowedBytes who) = true := by
  have hflag : ∀ isSet : Bool, isSet ∈ [true, false] := by decide
  have hmark : ∀ mark : ExecMark, mark ∈ [ExecMark.exec, .both, .special, .neither] := by
    intro mark
    cases mark <;> decide
  simp only [fits, Triple.text, allowedBytes, List.zip_cons_cons, List.zip_nil_left, List.all_cons,
    List.all_nil, Bool.and_true, Bool.and_eq_true, List.contains_iff_mem]
  exact ⟨List.mem_map_of_mem (hflag _), List.mem_map_of_mem (hflag _),
    List.mem_map_of_mem (hmark _)⟩

theorem exists_triple (hlen : p.length = 3) (h : fits p (allowedBytes who) = true) :
    ∃ t : Triple, t.text who = p := by
  obtain ⟨a, b, c, rfl⟩ := List.length_eq_three.1 hlen
  simp only [fits, allowedBytes, List.zip_cons_cons, List.zip_nil_left, List.all_cons,
    List.all_nil, Bool.and_true, Bool.and_eq_true, List.contains_iff_mem] at h
  obtain ⟨ha, hb, hc⟩ := h
  obtain ⟨read, -, rfl⟩ := List.mem_map.1 ha
  obtain ⟨write, -, rfl⟩ := List.mem_map.1 hb
  obtain ⟨mark, -, rfl⟩ := List.mem_map.1 hc
  exact ⟨⟨read, write, mark⟩, rfl⟩

theorem ExactText.length_permissions (t : ExactText) : t.permissions.length = 9 :=
  rfl

theorem ExactText.fits_permissions (t : ExactText) : fits t.permissions exactPositions = true := by
  rw [exactPositions_eq, ExactText.permissions, fits_append rfl, fits_append rfl, Triple.fits_text,
    Triple.fits_text, Triple.fits_text]
  rfl

theorem exists_triples (hlen : p.length = 9) (h : fits p exactPositions = true) :
    ∃ owner group other : Triple,
      owner.text .owner ++ (group.text .group ++ other.text .other) = p := by
  have hparts : p = p.take 3 ++ ((p.drop 3).take 3 ++ (p.drop 3).drop 3) := by
    rw [List.take_append_drop, List.take_append_drop]
  rw [hparts, exactPositions_eq, fits_append (by simp [hlen, allowedBytes]),
    fits_append (by simp [hlen, allowedBytes]), Bool.and_eq_true, Bool.and_eq_true] at h
  obtain ⟨howner, hgroup, hother⟩ := h
  obtain ⟨owner, howner⟩ := exists_triple (by simp [hlen]) howner
  obtain ⟨group, hgroup⟩ := exists_triple (by simp [hlen]) hgroup
  obtain ⟨other, hother⟩ := exists_triple (by simp [hlen]) hother
  exact ⟨owner, group, other, by rw [howner, hgroup, hother, ← hparts]⟩

theorem permissionPart_eq_some_iff :
    permissionPart s = some p ↔
      p.length = 9 ∧ ∃ type : Option UInt8, type.toList ++ p = s ∧ ∀ c ∈ type, c ∈ typeBytes := by
  constructor
  · intro h
    unfold permissionPart at h
    split at h
    · rename_i hlen
      cases h
      exact ⟨hlen, none, rfl, by simp⟩
    · cases s with
      | nil => cases h
      | cons c rest =>
        dsimp only at h
        split at h
        · rename_i hrest
          cases h
          exact ⟨hrest.1, some c, rfl, by simpa using hrest.2⟩
        · cases h
  · rintro ⟨hlen, type, rfl, htype⟩
    cases type with
    | none => exact if_pos hlen
    | some c =>
      have hten : ([c] ++ p).length ≠ 9 := by
        rw [List.length_append]
        simp [hlen]
      exact (if_neg hten).trans (if_pos ⟨hlen, htype c rfl⟩)

/-- The texts with the outline of an exact mode are the exact modes. -/
theorem isExactShaped_iff : isExactShaped s = true ↔ ∃ t : ExactText, t.text = s := by
  constructor
  · intro h
    unfold isExactShaped at h
    split at h
    · rename_i p hpart
      obtain ⟨hlen, type, hs, htype⟩ := permissionPart_eq_some_iff.1 hpart
      obtain ⟨owner, group, others, hp⟩ := exists_triples hlen h
      exact ⟨⟨type, owner, group, others, htype⟩, by rw [← hs, ← hp]; rfl⟩
    · cases h
  · rintro ⟨t, rfl⟩
    have hpart : permissionPart t.text = some t.permissions :=
      permissionPart_eq_some_iff.2 ⟨t.length_permissions, t.type, rfl, t.type_mem⟩
    rw [isExactShaped, hpart]
    exact t.fits_permissions

/-! ## The mark -/

theorem repeatsLetter_append {c : UInt8} (hc : Ascii.isAlpha c = true) {q r : List UInt8}
    (hr : c ∈ r) : repeatsLetter (q ++ c :: r) = true := by
  induction q with
  | nil => simp [repeatsLetter, hc, hr]
  | cons b q ih => simp [repeatsLetter, ih]

/-- A class that may not read has a minus sign. -/
theorem Triple.text_cases (t : Triple) (who : Who) :
    45 ∈ t.text who ∨ ∃ r, t.text who = Ascii.byte 'r' :: r := by
  cases h : t.read with
  | false =>
    left
    rw [Triple.text, h]
    exact List.mem_cons_self
  | true => exact .inr ⟨_, by rw [Triple.text, h]; rfl⟩

theorem ExactText.hasExactMark_text (t : ExactText) : hasExactMark t.text = true := by
  rw [hasExactMark, Bool.or_eq_true, List.contains_iff_mem]
  rcases t.owner.text_cases .owner with howner | ⟨q, howner⟩
  · exact .inl (by simp [ExactText.text, ExactText.permissions, howner])
  rcases t.group.text_cases .group with hgroup | ⟨r, hgroup⟩
  · exact .inl (by simp [ExactText.text, ExactText.permissions, hgroup])
  right
  rw [ExactText.text, ExactText.permissions, howner, hgroup]
  exact repeatsLetter_append (by decide) (by simp)

/-! ## The bits -/

theorem positionBits_flag_read (isSet : Bool) (who : Who) :
    positionBits who 0 (flagByte (Ascii.byte 'r') isSet) =
      some (if isSet then who.read else 0) := by
  cases isSet <;> rfl

theorem positionBits_flag_write (isSet : Bool) (who : Who) :
    positionBits who 1 (flagByte (Ascii.byte 'w') isSet) =
      some (if isSet then who.write else 0) := by
  cases isSet <;> rfl

theorem positionBits_mark (mark : ExecMark) (who : Who) :
    positionBits who 2 (mark.byte who) = some (mark.bits who) := by
  cases mark <;> cases who <;> rfl

/-- The three positions of a class are read as the bits that they set. -/
theorem parsePositions_triple (t : Triple) (who : Who) (rest : List (UInt8 × Who × Nat))
    (offset : Nat) :
    parsePositions ((t.text who).zip [(who, 0), (who, 1), (who, 2)] ++ rest) offset =
      (parsePositions rest (offset + 3)).map (t.bits who ||| ·) := by
  simp only [Triple.text, List.zip_cons_cons, List.zip_nil_left, List.cons_append, List.nil_append,
    parsePositions, positionBits_flag_read, positionBits_flag_write, positionBits_mark]
  cases parsePositions rest (offset + 3) with
  | error e => rfl
  | ok bits => simp [Except.map, Triple.bits, UInt32.or_assoc]

/-- An exact mode is read as the bits that it sets. -/
theorem ExactText.parseExact_text (t : ExactText) : parseExact t.text = .ok (.replace t.bits) := by
  have hdrop : t.text.drop (t.text.length - 9) = t.permissions := by
    have hlen : t.text.length - 9 = t.type.toList.length := by
      rw [ExactText.text, List.length_append, t.length_permissions]
      omega
    rw [hlen, ExactText.text, List.drop_left]
  have hzip : t.permissions.zip positions =
      (t.owner.text .owner).zip [(.owner, 0), (.owner, 1), (.owner, 2)] ++
        ((t.group.text .group).zip [(.group, 0), (.group, 1), (.group, 2)] ++
          ((t.other.text .other).zip [(.other, 0), (.other, 1), (.other, 2)] ++ [])) :=
    rfl
  rw [parseExact, hdrop, hzip, parsePositions_triple, parsePositions_triple, parsePositions_triple]
  simp [parsePositions, Except.map, ExactText.bits]

end CText.Mode
