import CText.Checked.Mode
import CText.Proofs.Checked.Buffer
import Mathlib.Tactic.IntervalCases

/-!
# Offsets in modes

A text that is read as an exact mode has room for its nine positions, each of which belongs to a
class. In every notation the offsets that are counted are at most the length of the text.
-/

namespace CText.Checked

open Buffer Escape Mode

variable {s : List UInt8}

/-! ## Which notation -/

theorem permissionPart_eq (s : List UInt8) : permissionPart s = .ok (Mode.permissionPart s) := by
  rw [permissionPart]
  unfold Mode.permissionPart
  split
  next => rfl
  next =>
    cases s with
    | nil => rfl
    | cons type rest =>
      have hfetch : fetch (type :: rest) 0 = .ok type := rfl
      have hbehind : behind (type :: rest) 1 = .ok rest := behind_eq (Nat.le_add_left _ _)
      rw [hfetch, ok_bind, hbehind, ok_bind, List.length_cons]
      by_cases hlen : rest.length = 9
      · by_cases htype : type ∈ typeBytes
        · simp [hlen, htype, pure, Except.pure]
        · simp [hlen, htype, pure, Except.pure]
      · simp [hlen, pure, Except.pure]

theorem repeatsLetter_eq {i left : Nat} (hleft : i + left = s.length) (h : s.length < countLimit) :
    repeatsLetter s i left = .ok (Mode.repeatsLetter (s.drop i)) := by
  induction left generalizing i with
  | zero =>
    rw [List.drop_eq_nil_of_le (by omega)]
    rfl
  | succ left ih =>
    have hi : i < s.length := by omega
    rw [repeatsLetter, fetch_getElem hi, ok_bind, List.drop_eq_getElem_cons hi,
      Mode.repeatsLetter, add_eq (by omega), ok_bind, behind_eq hi, ok_bind, ih (by omega)]
    cases Ascii.isAlpha s[i] with
    | false => rfl
    | true => cases (s.drop (i + 1)).contains s[i] <;> rfl

theorem isExact_eq (h : s.length < countLimit) :
    isExact s = .ok (isExactShaped s && hasExactMark s) := by
  rw [isExact, permissionPart_eq, ok_bind, isExactShaped]
  cases Mode.permissionPart s with
  | none => rfl
  | some positions =>
    rw [repeatsLetter_eq (Nat.zero_add _) h]
    dsimp only
    generalize (positions.zip exactPositions).all _ = shaped
    rw [hasExactMark]
    cases shaped <;> cases s.contains 45 <;> rfl

theorem classify_eq (h : s.length < countLimit) : classify s = granted (Mode.classify s) := by
  cases s with
  | nil => rfl
  | cons c rest =>
    rw [classify, Mode.classify, isExact_eq h, checked_ok, ok_bind]
    split
    next => rfl
    next =>
      split
      next => rfl
      next => split <;> rfl

/-- What is read as an exact mode has nine positions, perhaps after a letter. -/
theorem length_of_classify (h : Mode.classify s = .ok .exact) : s.length = 9 ∨ s.length = 10 := by
  cases s with
  | nil => cases h
  | cons c rest =>
    rw [Mode.classify] at h
    split at h
    next => cases h
    next =>
      split at h
      next hexact =>
        obtain ⟨hshaped, -⟩ := Bool.and_eq_true_iff.1 hexact
        by_cases hten : rest.length = 9
        · exact .inr (congrArg (· + 1) hten)
        · by_cases hnine : (c :: rest).length = 9
          · exact .inl hnine
          · have hnone : Mode.permissionPart (c :: rest) = none := by
              rw [Mode.permissionPart, if_neg hnine]
              exact if_neg fun hroom => hten hroom.1
            rw [isExactShaped, hnone] at hshaped
            cases hshaped
      next => split at h <;> cases h

/-! ## Exact modes -/

/-- Each of nine positions belongs to a class. -/
theorem drop_positions :
    ∀ i < 9, ∃ who, fetch Who.all (i / 3) = .ok who ∧
      positions.drop i = (who, i % 3) :: positions.drop (i + 1) := by
  intro i hi
  interval_cases i
  all_goals exact ⟨_, rfl, rfl⟩

theorem parsePositions_eq {offset i : Nat} (hi : i + s.length ≤ 9) (h : offset + 9 < countLimit) :
    parsePositions offset s i =
      granted (Mode.parsePositions (s.zip (positions.drop i)) (offset + i)) := by
  induction s generalizing i with
  | nil => rfl
  | cons c rest ih =>
    rw [List.length_cons] at hi
    obtain ⟨who, hwho, hdrop⟩ := drop_positions i (by omega)
    rw [parsePositions, hwho, checked_ok, ok_bind, hdrop, List.zip_cons_cons, Mode.parsePositions,
      ih (by omega), Nat.add_assoc]
    cases positionBits who (i % 3) c with
    | none =>
      dsimp only
      rw [add_eq (by omega)]
      rfl
    | some bits =>
      dsimp only
      cases Mode.parsePositions (rest.zip (positions.drop (i + 1))) (offset + (i + 1)) <;> rfl

theorem parseExact_eq (hlen : s.length = 9 ∨ s.length = 10) :
    parseExact s = granted (Mode.parseExact s) := by
  have hroom : s.length - 9 + 9 < countLimit := by
    rw [countLimit]
    omega
  rw [parseExact, Mode.parseExact, sub_eq (by omega), checked_ok, ok_bind, behind_eq (by omega),
    checked_ok, ok_bind, parsePositions_eq (by rw [List.length_drop]; omega) hroom, List.drop_zero,
    Nat.add_zero]
  cases Mode.parsePositions ((s.drop (s.length - 9)).zip positions) (s.length - 9) <;> rfl

/-! ## Partial modes -/

theorem readWho_eq {pos : Nat} (h : pos + s.length < countLimit) :
    readWho s pos =
      .ok ((Mode.readWho s).1, (Mode.readWho s).2,
        pos + (s.length - (Mode.readWho s).2.length)) := by
  induction s generalizing pos with
  | nil => rfl
  | cons c rest ih =>
    rw [List.length_cons] at h
    have hlen := readWho_length rest
    rw [readWho, Mode.readWho]
    cases whoOfByte? c with
    | none =>
      dsimp only
      rw [Nat.sub_self]
      rfl
    | some who =>
      have hstop : pos + 1 + (rest.length - (Mode.readWho rest).2.length) =
          pos + ((c :: rest).length - (Mode.readWho rest).2.length) := by
        rw [List.length_cons]
        omega
      dsimp only
      rw [add_eq (by omega), ok_bind, ih (by omega), ok_bind, hstop]
      rfl

theorem readPermissions_eq {pos : Nat} (h : pos + s.length < countLimit) :
    readPermissions s pos =
      granted ((Mode.readPermissions s pos).map fun (letters, rest) =>
        (letters, rest, pos + (s.length - rest.length))) := by
  induction s generalizing pos with
  | nil => rfl
  | cons c rest ih =>
    rw [List.length_cons] at h
    rw [readPermissions, Mode.readPermissions]
    split
    next =>
      rw [Except.map]
      dsimp only
      rw [Nat.sub_self]
      rfl
    next =>
      split
      next =>
        rw [add_eq (by omega), checked_ok, ok_bind, ih (by omega)]
        cases hread : Mode.readPermissions rest (pos + 1) with
        | error e => rfl
        | ok read =>
          obtain ⟨letters, behind⟩ := read
          have hlen := readPermissions_length hread
          have hstop : pos + 1 + (rest.length - behind.length) =
              pos + ((c :: rest).length - behind.length) := by
            rw [List.length_cons]
            omega
          simp only [Except.map, granted_ok, ok_bind, hstop]
          rfl
      next => rfl

theorem readClause_eq (touched : List Who) {pos : Nat} (h : pos + s.length < countLimit) :
    readClause touched s pos =
      granted ((Mode.readClause touched s pos).map fun (clause, rest) =>
        (clause, rest, pos + (s.length - rest.length))) := by
  have hwho := readWho_length s
  rw [readClause, Mode.readClause, readWho_eq h, checked_ok, ok_bind]
  split
  next => rfl
  next =>
    dsimp only
    split
    next => rfl
    next =>
      cases hafter : (Mode.readWho s).2 with
      | nil => rfl
      | cons c afterOperator =>
        dsimp only
        cases Operator.ofByte? c with
        | none => rfl
        | some operator =>
          rw [hafter, List.length_cons] at hwho
          rw [List.length_cons]
          generalize hoperator : pos + (s.length - (afterOperator.length + 1)) = operatorAt
          dsimp only
          rw [add_eq (by omega), checked_ok, ok_bind, readPermissions_eq (by omega)]
          cases hread : Mode.readPermissions afterOperator (operatorAt + 1) with
          | error e => rfl
          | ok read =>
            obtain ⟨letters, rest⟩ := read
            have hlen := readPermissions_length hread
            have hstop : operatorAt + 1 + (afterOperator.length - rest.length) =
                pos + (s.length - rest.length) := by omega
            simp only [Except.map, granted_ok, ok_bind, hstop]
            rfl

theorem readClauses_eq (touched : List Who) {pos turns : Nat} (h : pos + s.length < countLimit)
    (hturns : s.length < turns) :
    readClauses touched s pos turns = granted (Mode.readClauses touched s pos) := by
  induction turns generalizing touched s pos with
  | zero => cases hturns
  | succ turns ih =>
    rw [readClauses, Mode.readClauses, readClause_eq touched h]
    split
    next e hread =>
      rw [hread]
      rfl
    next clause hread =>
      rw [hread]
      rfl
    next clause b rest hread =>
      have hlen := readClause_length hread
      rw [List.length_cons] at hlen
      have hnext : pos + (s.length - (rest.length + 1)) + 1 = pos + (s.length - rest.length) := by
        omega
      rw [hread, Except.map, granted_ok, ok_bind]
      dsimp only
      rw [List.length_cons, add_eq (by omega), checked_ok, ok_bind, hnext]
      split
      next => rfl
      next =>
        rw [ih _ (by omega) (by omega)]
        cases Mode.readClauses (touched ++ clause.who) rest (pos + (s.length - rest.length)) <;> rfl

theorem parseMode_eq (h : s.length < countLimit) : parseMode s = granted (Mode.parse s) := by
  rw [parseMode, Mode.parse, classify_eq h]
  cases hform : Mode.classify s with
  | error e => rfl
  | ok form =>
    cases form with
    | numeric => rfl
    | exact => exact parseExact_eq (length_of_classify hform)
    | clauses =>
      rw [granted_ok, ok_bind]
      dsimp only
      rw [parsePartial, Mode.parsePartial, readClauses_eq _ (by omega) (Nat.lt_succ_self _)]
      cases Mode.readClauses [] s 0 <;> rfl

end CText.Checked
