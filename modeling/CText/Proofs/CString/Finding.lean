import CText.Proofs.Buffer.Searching
import CText.Proofs.Checked.CString
import CText.Proofs.CString.Mapping

/-!
# The first place of a block

A search for a block may try one offset after the other, or jump to the next unit that the block
begins with. Neither passes over an offset at which the block stands: in front of the next such unit
it cannot begin, and behind the last offset with room for it it cannot end. Both therefore answer
with the first offset at which it stands, wherever its occurrences overlap, and agree with each
other.
-/

namespace CText.Buffer

variable {α : Type} {needle hay : List α} {i k : Nat} {answer other : Option Nat}

/-- A block stands at an offset of a buffer. -/
def StandsAt (needle hay : List α) (i : Nat) : Prop :=
  ∃ front behind, hay = front ++ needle ++ behind ∧ front.length = i

/-- The first offset at which a block stands in a buffer, and none if it stands nowhere. -/
def IsFirst (needle hay : List α) : Option Nat → Prop
  | some i => StandsAt needle hay i ∧ ∀ j < i, ¬ StandsAt needle hay j
  | none => ∀ i, ¬ StandsAt needle hay i

theorem standsAt_iff : StandsAt needle hay i ↔ i ≤ hay.length ∧ needle <+: hay.drop i := by
  constructor
  · rintro ⟨front, behind, rfl, rfl⟩
    rw [List.append_assoc, List.drop_left, List.length_append]
    exact ⟨Nat.le_add_right _ _, List.prefix_append _ _⟩
  · rintro ⟨hi, behind, hbehind⟩
    refine ⟨hay.take i, behind, ?_, List.length_take_of_le hi⟩
    rw [List.append_assoc, hbehind, List.take_append_drop]

theorem StandsAt.add_length_le (h : StandsAt needle hay i) : i + needle.length ≤ hay.length := by
  obtain ⟨front, behind, rfl, rfl⟩ := h
  rw [List.length_append, List.length_append]
  exact Nat.le_add_right _ _

/-- Where a block stands, the unit stands with which it begins. -/
theorem StandsAt.getElem?_eq {first : α} {rest : List α} (h : StandsAt (first :: rest) hay i) :
    hay[i]? = some first := by
  obtain ⟨front, behind, rfl, rfl⟩ := h
  rw [List.append_assoc, List.getElem?_append_right (Nat.le_refl _), Nat.sub_self]
  rfl

theorem standsAt_drop (h : k ≤ hay.length) :
    StandsAt needle (hay.drop k) i ↔ StandsAt needle hay (k + i) := by
  rw [standsAt_iff, standsAt_iff, List.drop_drop, List.length_drop]
  constructor
  · rintro ⟨hi, hprefix⟩
    exact ⟨by omega, hprefix⟩
  · rintro ⟨hi, hprefix⟩
    exact ⟨by omega, hprefix⟩

theorem StandsAt.isFirst (h : StandsAt needle hay 0) : IsFirst needle hay (some 0) :=
  ⟨h, fun _ hj => absurd hj (Nat.not_lt_zero _)⟩

theorem IsFirst.unique (h : IsFirst needle hay answer) (h' : IsFirst needle hay other) :
    answer = other := by
  cases answer with
  | none =>
    cases other with
    | none => rfl
    | some j => exact absurd h'.1 (h j)
  | some i =>
    cases other with
    | none => exact absurd h.1 (h' i)
    | some j =>
      have hij : ¬ i < j := fun hlt => h'.2 i hlt h.1
      have hji : ¬ j < i := fun hlt => h.2 j hlt h'.1
      congr 1
      omega

/-- Offsets at which the block does not stand may be passed over. -/
theorem IsFirst.of_drop (hk : k ≤ hay.length) (hbefore : ∀ j < k, ¬ StandsAt needle hay j)
    (h : IsFirst needle (hay.drop k) answer) : IsFirst needle hay (answer.map (k + ·)) := by
  have hnever (j : Nat) (hj : ∀ i, j = k + i → ¬ StandsAt needle (hay.drop k) i) :
      ¬ StandsAt needle hay j := by
    intro hstands
    rcases Nat.lt_or_ge j k with hlt | hge
    · exact hbefore j hlt hstands
    · obtain ⟨i, rfl⟩ := Nat.exists_eq_add_of_le hge
      exact hj i rfl ((standsAt_drop hk).2 hstands)
  cases answer with
  | none => exact fun j => hnever j fun i _ => h i
  | some i =>
    refine ⟨(standsAt_drop hk).1 h.1, fun j hj => hnever j fun m hm => h.2 m ?_⟩
    have hlt : j < k + i := hj
    omega

variable [DecidableEq α]

/-- Jumping from one unit that the block begins with to the next passes over no place of it. -/
theorem exists_isFirst_findBlockFrom (first : α) (rest hay : List α) (base : Nat) :
    ∃ answer, IsFirst (first :: rest) hay answer ∧
      findBlockFrom first (first :: rest) hay base = answer.map (base + ·) := by
  by_cases hlong : (first :: rest).length ≤ hay.length
  · cases hscan : scanForward hay first (hay.length - (first :: rest).length + 1) with
    | none =>
      refine ⟨none, fun j hstands => ?_, Checked.findBlockFrom_of_none hlong hscan base⟩
      have hroom := hstands.add_length_le
      exact ne_of_scanForward_none hscan (by omega) hstands.getElem?_eq
    | some i =>
      obtain ⟨-, hfirst, hbefore⟩ := getElem?_of_scanForward hscan
      obtain ⟨hi, -⟩ := List.getElem?_eq_some_iff.1 hfirst
      have hpassed (j : Nat) (hj : j < i) : ¬ StandsAt (first :: rest) hay j :=
        fun hstands => hbefore j hj hstands.getElem?_eq
      rw [Checked.findBlockFrom_of_some hlong hscan]
      split
      next hhit =>
        rw [List.isPrefixOf_iff_prefix] at hhit
        exact ⟨some i, ⟨standsAt_iff.2 ⟨Nat.le_of_lt hi, hhit⟩, hpassed⟩, rfl⟩
      next hmiss =>
        obtain ⟨answer, hanswer, hrun⟩ :=
          exists_isFirst_findBlockFrom first rest (hay.drop (i + 1)) (base + i + 1)
        refine ⟨answer.map (i + 1 + ·), hanswer.of_drop hi fun j hj => ?_, ?_⟩
        · rcases Nat.lt_or_eq_of_le (Nat.le_of_lt_succ hj) with hlt | rfl
          · exact hpassed j hlt
          · intro hstands
            exact hmiss (List.isPrefixOf_iff_prefix.2 (standsAt_iff.1 hstands).2)
        · rw [hrun, Option.map_map]
          congr 1
          funext j
          simp only [Function.comp_apply]
          omega
  · refine ⟨none, fun j hstands => ?_, ?_⟩
    · have hroom := hstands.add_length_le
      omega
    · rw [findBlockFrom, if_neg hlong]
      rfl
termination_by hay.length
decreasing_by
  rw [List.length_drop, List.length_cons] at *
  omega

theorem isFirst_findBlock (hay needle : List α) : IsFirst needle hay (findBlock hay needle) := by
  cases needle with
  | nil => exact StandsAt.isFirst ⟨[], hay, rfl, rfl⟩
  | cons first rest =>
    obtain ⟨answer, hanswer, hrun⟩ := exists_isFirst_findBlockFrom first rest hay 0
    have hsame : answer.map (0 + ·) = answer := by
      cases answer with
      | none => rfl
      | some i => exact congrArg some (Nat.zero_add i)
    rw [findBlock, hrun, hsame]
    exact hanswer

end CText.Buffer

namespace CText.CString

open Buffer

section

variable {α : Type} [DecidableEq α] [CodeUnit α]

theorem startsWith_iff {hay needle : List α} :
    startsWith false hay needle = true ↔ needle <+: hay := by
  induction needle generalizing hay with
  | nil => simp [startsWith]
  | cons b needle ih =>
    cases hay with
    | nil => simp [startsWith]
    | cons a hay =>
      have hunit : sameUnit false a b = true ↔ b = a := beq_iff_eq.trans eq_comm
      rw [startsWith, Bool.and_eq_true, ih, List.cons_prefix_cons, hunit]

/-- Trying one offset after the other stops at the first at which the block stands. -/
theorem isFirst_findFrom (hay needle : List α) : IsFirst needle hay (findFrom false needle hay) := by
  induction hay with
  | nil =>
    cases needle with
    | nil => exact StandsAt.isFirst ⟨[], [], rfl, rfl⟩
    | cons b needle =>
      intro i hstands
      have hroom := hstands.add_length_le
      rw [List.length_cons, List.length_nil] at hroom
      omega
  | cons a hay ih =>
    rw [findFrom]
    split
    next hstarts =>
      obtain ⟨behind, hbehind⟩ := startsWith_iff.1 hstarts
      exact StandsAt.isFirst ⟨[], behind, hbehind.symm, rfl⟩
    next hstarts =>
      have hplus : (· + 1) = (1 + ·) := funext fun i => Nat.add_comm i 1
      rw [hplus]
      refine IsFirst.of_drop (Nat.succ_pos _) (fun j hj hstands => ?_) ih
      obtain rfl : j = 0 := by omega
      exact hstarts (startsWith_iff.2 (standsAt_iff.1 hstands).2)

/-- Both ways to search find the same. -/
theorem findFrom_eq_findBlock (hay needle : List α) :
    findFrom false needle hay = findBlock hay needle :=
  (isFirst_findFrom hay needle).unique (isFirst_findBlock hay needle)

theorem find_eq_findBlock (hay needle : List α) :
    find false hay needle = findBlock (content hay) (content needle) := by
  rw [find_eq, findFrom_eq_findBlock]

end

open Byte Wide

/-- A search for a block of bytes answers with the first offset at which it stands, and with none if
it stands nowhere; an empty block stands at the start. The search for a string in another is that
search in the contents of the two buffers, that without regard to case the same in the buffers in
small letters, and that in wide units the same search for a block again. Step by step no search
leaves its buffers or counts too far. -/
theorem searches_find_first :
    -- Blocks of bytes.
    (∀ hay needle, IsFirst needle hay (memmem hay needle)) ∧
    (∀ hay, memmem hay [] = some 0) ∧
    (∀ hay needle, hay.length < Checked.countLimit →
      Checked.findBlock hay needle = .ok (memmem hay needle)) ∧
    -- Strings of bytes.
    (∀ hay needle, strstr hay needle = memmem (content hay) (content needle)) ∧
    (∀ hay needle, strcasestr hay needle =
      strstr (hay.map Ascii.lower) (needle.map Ascii.lower)) ∧
    (∀ hay needle, Checked.find false hay needle = .ok (strstr hay needle)) ∧
    (∀ hay needle, Checked.find true hay needle = .ok (strcasestr hay needle)) ∧
    -- Strings of wide units.
    (∀ hay needle, wcsstr hay needle = findBlock (content hay) (content needle)) ∧
    (∀ hay needle, IsFirst (content needle) (content hay) (wcsstr hay needle)) ∧
    ∀ hay needle, Checked.find false hay needle = .ok (wcsstr hay needle) := by
  refine ⟨isFirst_findBlock, fun _ => rfl, ?_, find_eq_findBlock, ?_, ?_, ?_, find_eq_findBlock,
    ?_, ?_⟩
  · intro hay needle h
    exact Checked.findBlock_eq needle h
  · intro hay needle
    exact ((carries_fold true).find_map hay needle).symm
  · exact Checked.find_eq false
  · exact Checked.find_eq true
  · intro hay needle
    rw [wcsstr, find_eq_findBlock]
    exact isFirst_findBlock _ _
  · exact Checked.find_eq false

/-- A block whose start stands in front of it once already, and which ends where the buffer ends. -/
theorem searches_find_first_overlap :
    ([97, 97, 97, 98] : List UInt8).length < Checked.countLimit ∧
      memmem [97, 97, 97, 98] [97, 97, 98] = some 1 := by
  have hlen : ([97, 97, 97, 98] : List UInt8).length < Checked.countLimit := by decide
  obtain ⟨-, -, hsteps, -⟩ := searches_find_first
  have hanswer := hsteps [97, 97, 97, 98] [97, 97, 98] hlen
  have hrun : Checked.findBlock ([97, 97, 97, 98] : List UInt8) [97, 97, 98] = .ok (some 1) := rfl
  rw [hrun] at hanswer
  exact ⟨hlen, (Except.ok.inj hanswer).symm⟩

end CText.CString
