import CText.Mode.Printer
import CText.Proofs.Mode.Accepted

/-!
# Reading back what was written

Every style writes a text of one of the notations: the nine positions are an exact mode, with or
without a file type, and the clauses are a partial mode with one clause for each class. In each of
them a class says exactly which of its bits are set. So what is read is the update that replaces all
permissions by those of the mode, whatever the bits above the permissions are.
-/

namespace CText.Mode

variable {bit : UInt32}

/-! ## The bits of a class, one by one -/

theorem and_or_distrib (m n k : UInt32) : (m &&& n) ||| (m &&& k) = m &&& (n ||| k) := by
  apply eq_of_hasBit
  intro i _
  simp only [hasBit_or, hasBit_and, Bool.and_or_distrib_left]

/-- The four bits of a class are single bits. -/
theorem Who.hasBit_of_mem (who : Who) (h : bit ∈ [who.read, who.write, who.exec, who.special]) :
    ∀ i < 32, hasBit bit i = decide (i = bit.toNat.log2) := by
  have hall : ([who.read, who.write, who.exec, who.special].all fun bit =>
      (List.range 32).all fun i => hasBit bit i == decide (i = bit.toNat.log2)) = true := by
    cases who <;> decide
  intro i hi
  have hbit := List.all_eq_true.1 hall bit h
  exact eq_of_beq (List.all_eq_true.1 hbit i (List.mem_range.2 hi))

/-- A bit of a class is in a mode as a whole or not at all. -/
theorem Who.and_bit (who : Who) (h : bit ∈ [who.read, who.write, who.exec, who.special])
    (m : UInt32) : m &&& bit = if isSet m bit then bit else 0 := by
  have hbit := who.hasBit_of_mem h
  have hand : ∀ i < 32, hasBit (m &&& bit) i =
      (hasBit m bit.toNat.log2 && decide (i = bit.toNat.log2)) := by
    intro i hi
    rw [hasBit_and, hbit i hi]
    by_cases hk : i = bit.toNat.log2
    · rw [hk]
    · simp [hk]
  cases hm : hasBit m bit.toNat.log2 with
  | false =>
    have hzero : m &&& bit = 0 := by
      apply eq_of_hasBit
      intro i hi
      rw [hand i hi, hm, hasBit_zero, Bool.false_and]
    simp [isSet, hzero]
  | true =>
    have hall : m &&& bit = bit := by
      apply eq_of_hasBit
      intro i hi
      rw [hand i hi, hm, hbit i hi, Bool.true_and]
    have hne : bit ≠ 0 := by
      rintro rfl
      exact not_hasBit_zero ((hbit _ (lt_of_hasBit hm)).trans (decide_eq_true rfl))
    simp [isSet, hall, hne]

/-- The bits of a class in a mode are those of its four bits that are set. -/
theorem Who.and_scope (who : Who) (m : UInt32) :
    m &&& who.scope =
      (if isSet m who.read then who.read else 0) ||| ((if isSet m who.write then who.write else 0) |||
        ((if isSet m who.exec then who.exec else 0) |||
          (if isSet m who.special then who.special else 0))) := by
  rw [← who.and_bit (by simp), ← who.and_bit (by simp), ← who.and_bit (by simp),
    ← who.and_bit (by simp), and_or_distrib, and_or_distrib, and_or_distrib, Who.scope,
    UInt32.or_assoc, UInt32.or_assoc]

theorem or_scopes : Who.owner.scope ||| (Who.group.scope ||| Who.other.scope) = allPermissions := by
  decide

/-- The permissions of a mode are the bits of its three classes. -/
theorem and_allPermissions (m : UInt32) :
    m &&& allPermissions =
      (m &&& Who.owner.scope) ||| ((m &&& Who.group.scope) ||| (m &&& Who.other.scope)) := by
  rw [and_or_distrib, and_or_distrib, or_scopes]

/-! ## Nine positions -/

/-- What the three positions of a class say about a mode. -/
def Triple.ofMode (mode : UInt32) (who : Who) : Triple where
  read := isSet mode who.read
  write := isSet mode who.write
  mark := match isSet mode who.exec, isSet mode who.special with
    | true, true => .both
    | false, true => .special
    | true, false => .exec
    | false, false => .neither

theorem Triple.ofMode_text (mode : UInt32) (who : Who) :
    (Triple.ofMode mode who).text who = classPositions mode who := by
  have hmark : (Triple.ofMode mode who).mark.byte who = execPosition mode who := by
    unfold Triple.ofMode execPosition
    cases isSet mode who.exec <;> cases isSet mode who.special <;> cases who <;> rfl
  rw [Triple.text, hmark]
  rfl

theorem Triple.ofMode_bits (mode : UInt32) (who : Who) :
    (Triple.ofMode mode who).bits who = mode &&& who.scope := by
  have hmark : (Triple.ofMode mode who).mark.bits who =
      (if isSet mode who.exec then who.exec else 0) |||
        (if isSet mode who.special then who.special else 0) := by
    unfold Triple.ofMode
    cases isSet mode who.exec <;> cases isSet mode who.special <;> simp [ExecMark.bits]
  rw [Triple.bits, hmark, who.and_scope]
  rfl

theorem typeLetter_mem (mode : UInt32) : typeLetter mode ∈ Ascii.bytes "-bcdlps?" := by
  unfold typeLetter
  dsimp only
  split_ifs <;> decide

def ExactText.ofMode (mode : UInt32) (withType : Bool) : ExactText where
  type := if withType then some (typeLetter mode) else none
  owner := .ofMode mode .owner
  group := .ofMode mode .group
  other := .ofMode mode .other
  type_mem := by
    intro c hc
    cases withType with
    | false => cases hc
    | true =>
      cases hc
      exact typeLetter_mem mode

theorem ExactText.ofMode_permissions (mode : UInt32) (withType : Bool) :
    (ExactText.ofMode mode withType).permissions = symbolic mode := by
  simp [ExactText.ofMode, ExactText.permissions, Triple.ofMode_text, symbolic, Who.all]

theorem ExactText.ofMode_bits (mode : UInt32) (withType : Bool) :
    (ExactText.ofMode mode withType).bits = mode &&& allPermissions := by
  rw [and_allPermissions]
  simp only [ExactText.bits, ExactText.ofMode, Triple.ofMode_bits]

/-! ## One clause for each class -/

def permissionLetters (mode : UInt32) (who : Who) : List UInt8 := (classClause mode who).drop 2

theorem mem_permissionLetters {mode : UInt32} {who : Who} {c : UInt8} :
    c ∈ permissionLetters mode who ↔
      isSet mode who.read = true ∧ Ascii.byte 'r' = c ∨
        isSet mode who.write = true ∧ Ascii.byte 'w' = c ∨
          isSet mode who.exec = true ∧ Ascii.byte 'x' = c ∨
            isSet mode who.special = true ∧ who.specialLetter = c := by
  simp [permissionLetters, classClause, or_and_right, exists_or, and_assoc]

def ClauseText.ofMode (mode : UInt32) (who : Who) : ClauseText where
  who := [who.letter]
  operator := .assign
  letters := permissionLetters mode who
  who_mem := by
    intro c hc
    rw [List.mem_singleton.1 hc]
    cases who <;> decide
  letters_mem := by
    intro c hc
    rcases mem_permissionLetters.1 hc with ⟨-, rfl⟩ | ⟨-, rfl⟩ | ⟨-, rfl⟩ | ⟨-, rfl⟩
    · decide
    · decide
    · decide
    · cases who <;> decide

namespace ClauseText

variable (mode : UInt32) (who : Who)

theorem ofMode_text : (ClauseText.ofMode mode who).text = classClause mode who :=
  rfl

theorem ofMode_classes : (ClauseText.ofMode mode who).classes = [who] := by
  cases who <;> rfl

theorem ofMode_namedOf : (ClauseText.ofMode mode who).namedOf who = mode &&& who.scope := by
  have hletters : [Ascii.byte 'r', Ascii.byte 'w', Ascii.byte 'x', who.specialLetter].Nodup := by
    cases who <;> decide
  simp only [List.nodup_cons, List.mem_cons, List.not_mem_nil, or_false, not_or] at hletters
  obtain ⟨⟨hrw, hrx, hrs⟩, ⟨hwx, hws⟩, hxs, -⟩ := hletters
  have hread : Ascii.byte 'r' ∈ permissionLetters mode who ↔ isSet mode who.read = true := by
    simp [mem_permissionLetters, Ne.symm hrw, Ne.symm hrx, Ne.symm hrs]
  have hwrite : Ascii.byte 'w' ∈ permissionLetters mode who ↔ isSet mode who.write = true := by
    simp [mem_permissionLetters, hrw, Ne.symm hwx, Ne.symm hws]
  have hexec : Ascii.byte 'x' ∈ permissionLetters mode who ↔ isSet mode who.exec = true := by
    simp [mem_permissionLetters, hrx, hwx, Ne.symm hxs]
  have hspecial : who.specialLetter ∈ permissionLetters mode who ↔
      isSet mode who.special = true := by
    simp [mem_permissionLetters, hrs, hws, hxs]
  rw [ClauseText.namedOf, who.and_scope]
  simp only [ClauseText.ofMode, hread, hwrite, hexec, hspecial]

/-- A written clause clears all bits of its class and sets those of the mode. -/
theorem ofMode_update :
    (ClauseText.ofMode mode who).clause.update = ⟨mode &&& who.scope, who.scope⟩ := by
  have hnamed : (ClauseText.ofMode mode who).clause.named = mode &&& who.scope := by
    rw [clause_named, named, ofMode_classes, List.map_singleton, ofMode_namedOf]
    simp [union]
  have hscope : (ClauseText.ofMode mode who).clause.scope = who.scope := by
    rw [Clause.scope, clause, ofMode_classes]
    simp [union]
  rw [Clause.update, hnamed, hscope]
  rfl

end ClauseText

def PartialText.ofMode (mode : UInt32) : PartialText where
  clauses := Who.all.map (ClauseText.ofMode mode)
  ne_nil := by simp [Who.all]
  disjoint := by
    have hcovers : ∀ who v, (ClauseText.ofMode mode who).Covers v → v = who := by
      intro who v h
      rw [← ClauseText.mem_classes, ClauseText.ofMode_classes] at h
      exact List.mem_singleton.1 h
    have hne : Who.all.Pairwise (· ≠ ·) := by decide
    refine List.pairwise_map.2 (hne.imp fun hvw who hboth => hvw ?_)
    rw [← hcovers _ who hboth.1, ← hcovers _ who hboth.2]

theorem PartialText.ofMode_text (mode : UInt32) :
    (PartialText.ofMode mode).text = render mode .clauses := by
  simp [PartialText.text, PartialText.ofMode, Who.all, ClauseText.ofMode_text, joinWith, render,
    comma]

theorem PartialText.ofMode_update (mode : UInt32) :
    (PartialText.ofMode mode).update = .replace mode := by
  simp [PartialText.update, PartialText.ofMode, Who.all, ClauseText.ofMode_update, Update.merge,
    Update.none, Update.replace, and_allPermissions, UInt32.or_assoc, or_scopes]

/-- A written partial mode has a comma and so is not taken for an exact mode. -/
theorem PartialText.ofMode_not_exact (mode : UInt32) :
    ¬ ∃ e : ExactText, e.text = (PartialText.ofMode mode).text := by
  rintro ⟨e, he⟩
  apply e.comma_notMem
  rw [he, PartialText.ofMode_text]
  simp [render, comma]

/-! ## All styles -/

/-- What is written for a mode in any style replaces all permissions by those of the mode. -/
theorem parse_render (mode : UInt32) (style : Style) :
    parse (render mode style) = .ok (.replace mode) := by
  have hexact : ∀ withType, parse (ExactText.ofMode mode withType).text = .ok (.replace mode) := by
    intro withType
    have hreplace : Update.replace (mode &&& allPermissions) = .replace mode := by
      rw [Update.replace, Update.replace, UInt32.and_assoc, UInt32.and_self]
    rw [parse_exactText, ExactText.ofMode_bits, hreplace]
  cases style with
  | symbolic =>
    have htext : render mode .symbolic = (ExactText.ofMode mode false).text :=
      (ExactText.ofMode_permissions mode false).symm
    rw [htext, hexact]
  | withType =>
    have htext : render mode .withType = (ExactText.ofMode mode true).text := by
      rw [ExactText.text, ExactText.ofMode_permissions]
      rfl
    rw [htext, hexact]
  | clauses =>
    rw [← PartialText.ofMode_text, parse_partialText _ (PartialText.ofMode_not_exact mode),
      PartialText.ofMode_update]

/-- A mode written in any style is read, and applied to any other mode it gives the permissions of
the first and all else of the second. -/
theorem apply_parse_render (mode : UInt32) (style : Style) :
    ∃ u, parse (render mode style) = .ok u ∧
      ∀ base, u.apply base = (base &&& ~~~0o7777) ||| (mode &&& 0o7777) :=
  ⟨_, parse_render mode style, fun _ => rfl⟩

end CText.Mode
