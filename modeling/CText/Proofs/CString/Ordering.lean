import CText.Proofs.CString.Reducing

/-!
# Comparisons order strings

A comparison looks at a buffer as a string that goes on with terminators behind its end. Two such
strings are the same, or there is a first offset at which they differ, and the units there decide.
So a comparison is the order of the places where strings part: which of two strings is less is seen
at the first offset at which one of them leaves the other, and of three strings at the first offset
at which any two part. This makes it a total preorder, whatever the limit is and whether letters are
folded, and makes alike exactly those buffers in which it sees the same.
-/

namespace CText

theorem signedWide_eq (a : UInt32) : signedWide a = a.toInt32.toInt := by
  have hlt := a.toNat_lt
  have hbits : a.toInt32.toInt = (a.toNat : Int).bmod 4294967296 := by
    rw [← Int32.toInt_toBitVec, UInt32.toBitVec_toInt32, BitVec.toInt_eq_toNat_bmod]
    rfl
  rw [hbits, signedWide, Int.bmod_def]
  split <;> omega

namespace CString

section

variable {α : Type} [CodeUnit α] {s t u : List α} {i j : Nat}

/-- The unit at an offset of a string, which goes on with terminators behind its end. -/
def unitAt (s : List α) (i : Nat) : α := s.getD i CodeUnit.nul

theorem unitAt_zero (s : List α) : unitAt s 0 = s.headD CodeUnit.nul := by
  cases s <;> rfl

theorem unitAt_succ (s : List α) (i : Nat) : unitAt s (i + 1) = unitAt s.tail i := by
  cases s <;> rfl

theorem unitAt_of_length_le (h : s.length ≤ i) : unitAt s i = CodeUnit.nul := by
  rw [unitAt, List.getD_eq_getElem?_getD, List.getElem?_eq_none h]
  rfl

/-- The first offset at which two strings differ. -/
structure FirstDifference (s t : List α) (i : Nat) : Prop where
  same : ∀ j < i, unitAt s j = unitAt t j
  differ : unitAt s i ≠ unitAt t i

namespace FirstDifference

theorem symm (h : FirstDifference s t i) : FirstDifference t s i where
  same j hj := (h.same j hj).symm
  differ := h.differ.symm

theorem of_tail (hhead : unitAt s 0 = unitAt t 0) (h : FirstDifference s.tail t.tail i) :
    FirstDifference s t (i + 1) where
  same j hj := by
    cases j with
    | zero => exact hhead
    | succ j =>
      rw [unitAt_succ, unitAt_succ]
      exact h.same j (Nat.lt_of_succ_lt_succ hj)
  differ := by
    rw [unitAt_succ, unitAt_succ]
    exact h.differ

theorem tail (h : FirstDifference s t (i + 1)) : FirstDifference s.tail t.tail i where
  same j hj := by
    rw [← unitAt_succ, ← unitAt_succ]
    exact h.same (j + 1) (Nat.succ_lt_succ hj)
  differ := by
    rw [← unitAt_succ, ← unitAt_succ]
    exact h.differ

theorem lt_length (h : FirstDifference s t i) : i < max s.length t.length := by
  by_contra hover
  apply h.differ
  rw [unitAt_of_length_le (by omega), unitAt_of_length_le (by omega)]

end FirstDifference

/-- Two strings are the same, or where they part the first has the unit that is less. -/
def AtMost (number : α → Int) (s t : List α) : Prop :=
  s = t ∨ ∃ i, FirstDifference s t i ∧ number (unitAt s i) < number (unitAt t i)

/-- Of three strings the first and the last part where one of them first leaves the middle one. -/
theorem AtMost.trans {number : α → Int} (h : AtMost number s t) (h' : AtMost number t u) :
    AtMost number s u := by
  rcases h with rfl | ⟨i, hi, hlt⟩
  · exact h'
  rcases h' with rfl | ⟨j, hj, hlt'⟩
  · exact .inr ⟨i, hi, hlt⟩
  have hbefore (k : Nat) (hki : k < i) (hkj : k < j) : unitAt s k = unitAt u k :=
    (hi.same k hki).trans (hj.same k hkj)
  rcases Nat.lt_trichotomy i j with hij | rfl | hji
  · have hsame := hj.same i hij
    refine .inr ⟨i, ⟨fun k hk => hbefore k hk (hk.trans hij), ?_⟩, ?_⟩
    · rw [← hsame]
      exact hi.differ
    · rwa [← hsame]
  · have hboth := Int.lt_trans hlt hlt'
    refine .inr ⟨i, ⟨fun k hk => hbefore k hk hk, fun hsame => ?_⟩, hboth⟩
    rw [hsame] at hboth
    exact absurd hboth (Int.lt_irrefl _)
  · have hsame := hi.same j hji
    refine .inr ⟨j, ⟨fun k hk => hbefore k (hk.trans hji) hk, ?_⟩, ?_⟩
    · rw [hsame]
      exact hj.differ
    · rwa [hsame]

/-- Strings that hold no terminator are the same unless they differ at some offset first. -/
theorem exists_firstDifference (hs : CodeUnit.nul ∉ s) (ht : CodeUnit.nul ∉ t) (h : s ≠ t) :
    ∃ i, FirstDifference s t i := by
  induction s generalizing t with
  | nil =>
    cases t with
    | nil => exact absurd rfl h
    | cons b t => exact ⟨0, nofun, fun hb => ht (List.mem_cons.2 (.inl hb))⟩
  | cons a s ih =>
    cases t with
    | nil => exact ⟨0, nofun, fun ha => hs (List.mem_cons.2 (.inl ha.symm))⟩
    | cons b t =>
      by_cases hab : a = b
      · have hrest : s ≠ t := fun hst => h (by rw [hab, hst])
        obtain ⟨i, hi⟩ := ih (fun hmem => hs (List.mem_cons_of_mem a hmem))
          (fun hmem => ht (List.mem_cons_of_mem b hmem)) hrest
        exact ⟨i + 1, .of_tail hab hi⟩
      · exact ⟨0, nofun, hab⟩

theorem eq_nil_of_headD (hs : CodeUnit.nul ∉ s) (h : s.headD CodeUnit.nul = CodeUnit.nul) :
    s = [] := by
  cases s with
  | nil => rfl
  | cons a s => exact absurd (List.mem_cons.2 (.inl h.symm)) hs

theorem nul_notMem_tail (hs : CodeUnit.nul ∉ s) : CodeUnit.nul ∉ s.tail :=
  fun hmem => hs (List.mem_of_mem_tail hmem)

theorem clamp_sign (d : Int) : (clamp d).sign = d.sign := by
  rw [clamp]
  rcases Int.lt_trichotomy d 0 with hneg | rfl | hpos
  · rw [Int.sign_eq_neg_one_of_neg hneg, Int.sign_eq_neg_one_of_neg (by omega)]
  · rfl
  · rw [Int.sign_eq_one_of_pos hpos, Int.sign_eq_one_of_pos (by omega)]

variable [DecidableEq α]

/-- The units at the first difference decide, if it lies in front of the limit. -/
theorem compare_of_firstDifference {n : Nat} (hs : CodeUnit.nul ∉ s) (ht : CodeUnit.nul ∉ t)
    (h : FirstDifference s t i) (hi : i < n) :
    compare false n s t =
      clamp (CodeUnit.signed (unitAt s i) - CodeUnit.signed (unitAt t i)) := by
  obtain ⟨n, rfl⟩ := Nat.exists_eq_add_one_of_ne_zero (Nat.ne_zero_of_lt hi)
  induction i generalizing n s t with
  | zero =>
    have hdiffer := h.differ
    rw [unitAt_zero, unitAt_zero] at hdiffer ⊢
    exact if_pos hdiffer
  | succ i ih =>
    have hhead := h.same 0 (Nat.succ_pos i)
    rw [unitAt_zero, unitAt_zero] at hhead
    have hgo : s.headD CodeUnit.nul ≠ CodeUnit.nul := by
      intro hend
      apply h.differ
      rw [eq_nil_of_headD hs hend, eq_nil_of_headD ht (hhead.symm.trans hend)]
    obtain ⟨n, rfl⟩ := Nat.exists_eq_add_one_of_ne_zero (n := n) (by omega)
    have hsame : fold false (s.headD CodeUnit.nul) = fold false (t.headD CodeUnit.nul) := hhead
    rw [compare_succ, if_neg (not_not.2 hsame), if_neg hgo, unitAt_succ, unitAt_succ]
    exact ih (nul_notMem_tail hs) (nul_notMem_tail ht) h.tail n (Nat.lt_of_succ_lt_succ hi)

theorem compareAll_of_firstDifference (hs : CodeUnit.nul ∉ s) (ht : CodeUnit.nul ∉ t)
    (h : FirstDifference s t i) :
    compareAll false s t =
      clamp (CodeUnit.signed (unitAt s i) - CodeUnit.signed (unitAt t i)) :=
  compare_of_firstDifference hs ht h (Nat.lt_succ_of_lt h.lt_length)

theorem compare_self (folding : Bool) (n : Nat) (s : List α) : compare folding n s s = 0 := by
  induction n generalizing s with
  | zero => rfl
  | succ n ih =>
    rw [compare_succ, if_neg (not_not.2 rfl)]
    split
    · rfl
    · exact ih s.tail

end

variable {α : Type} [CodeUnit α] [DecidableEq α] {s t : List α} {i : Nat}
variable {view : List α → List α} {cmp : List α → List α → Int}

/-- A comparison that is a total preorder of buffers. It sees of a buffer the string `view` makes of
it, and reads units as the numbers `number`. Buffers of which it sees the same are alike, and of
others it answers with the sign of the first difference. -/
structure Orders (view : List α → List α) (number : α → Int) (cmp : List α → List α → Int) :
    Prop where
  antisymm : ∀ s t, (cmp t s).sign = -(cmp s t).sign
  total : ∀ s t, cmp s t ≤ 0 ∨ cmp t s ≤ 0
  trans : ∀ s t u, cmp s t ≤ 0 → cmp t u ≤ 0 → cmp s u ≤ 0
  eq_zero_iff : ∀ s t, cmp s t = 0 ↔ view s = view t
  parts : ∀ s t, view s ≠ view t → ∃ i, FirstDifference (view s) (view t) i ∧
    (cmp s t).sign = (number (unitAt (view s) i) - number (unitAt (view t) i)).sign

/-- A comparison whose sign is that of the plain comparison of what it sees. -/
structure ComparesViews (view : List α → List α) (cmp : List α → List α → Int) : Prop where
  nul_notMem : ∀ s, CodeUnit.nul ∉ view s
  sign_eq : ∀ s t, (cmp s t).sign = (compareAll false (view s) (view t)).sign

namespace ComparesViews

theorem eq_zero (hc : ComparesViews view cmp) (h : view s = view t) : cmp s t = 0 := by
  have hsign := hc.sign_eq s t
  rw [h, compareAll, compare_self] at hsign
  exact Int.sign_eq_zero_iff_zero.1 hsign

theorem sign_of_firstDifference (hc : ComparesViews view cmp)
    (h : FirstDifference (view s) (view t) i) :
    (cmp s t).sign =
      (CodeUnit.signed (unitAt (view s) i) - CodeUnit.signed (unitAt (view t) i)).sign := by
  rw [hc.sign_eq, compareAll_of_firstDifference (hc.nul_notMem s) (hc.nul_notMem t) h, clamp_sign]

/-- Buffers of which the same is seen, or that part at some offset. -/
theorem eq_or_exists (hc : ComparesViews view cmp) (s t : List α) :
    view s = view t ∨ ∃ i, FirstDifference (view s) (view t) i ∧
      CodeUnit.signed (unitAt (view s) i) ≠ CodeUnit.signed (unitAt (view t) i) := by
  by_cases h : view s = view t
  · exact .inl h
  · obtain ⟨i, hi⟩ := exists_firstDifference (hc.nul_notMem s) (hc.nul_notMem t) h
    exact .inr ⟨i, hi, fun hsame => hi.differ (CodeUnit.signed_injective _ _ hsame)⟩

theorem nonpos_iff (hc : ComparesViews view cmp) :
    cmp s t ≤ 0 ↔ AtMost CodeUnit.signed (view s) (view t) := by
  constructor
  · intro hle
    rcases hc.eq_or_exists s t with h | ⟨i, hi, hne⟩
    · exact .inl h
    · rw [← Int.sign_nonpos_iff, hc.sign_of_firstDifference hi, Int.sign_nonpos_iff] at hle
      exact .inr ⟨i, hi, by omega⟩
  · rintro (h | ⟨i, hi, hlt⟩)
    · exact Int.le_of_eq (hc.eq_zero h)
    · rw [← Int.sign_nonpos_iff, hc.sign_of_firstDifference hi, Int.sign_nonpos_iff]
      omega

theorem antisymm (hc : ComparesViews view cmp) (s t : List α) :
    (cmp t s).sign = -(cmp s t).sign := by
  rcases hc.eq_or_exists s t with h | ⟨i, hi, -⟩
  · rw [hc.eq_zero h, hc.eq_zero h.symm]
    rfl
  · rw [hc.sign_of_firstDifference hi, hc.sign_of_firstDifference hi.symm, ← Int.sign_neg,
      Int.neg_sub]

theorem eq_zero_iff (hc : ComparesViews view cmp) : cmp s t = 0 ↔ view s = view t := by
  refine ⟨fun hzero => ?_, hc.eq_zero⟩
  rcases hc.eq_or_exists s t with h | ⟨i, hi, hne⟩
  · exact h
  · have hsign := hc.sign_of_firstDifference hi
    rw [hzero, Int.sign_zero, eq_comm, Int.sign_eq_zero_iff_zero] at hsign
    exact absurd (Int.eq_of_sub_eq_zero hsign) hne

theorem orders (hc : ComparesViews view cmp) : Orders view CodeUnit.signed cmp where
  antisymm := hc.antisymm
  total s t := by
    have hsign := hc.antisymm s t
    rcases Int.le_total (cmp s t) 0 with hle | hge
    · exact .inl hle
    · right
      rw [← Int.sign_nonneg_iff] at hge
      rw [← Int.sign_nonpos_iff, hsign]
      omega
  trans s t u hst htu := hc.nonpos_iff.2 ((hc.nonpos_iff.1 hst).trans (hc.nonpos_iff.1 htu))
  eq_zero_iff _ _ := hc.eq_zero_iff
  parts s t h := by
    obtain hsame | ⟨i, hi, -⟩ := hc.eq_or_exists s t
    · exact absurd hsame h
    · exact ⟨i, hi, hc.sign_of_firstDifference hi⟩

/-- Of the answer no more than its sign is needed. -/
theorem sign (hc : ComparesViews view cmp) : ComparesViews view fun s t => (cmp s t).sign where
  nul_notMem := hc.nul_notMem
  sign_eq s t := by rw [Int.sign_sign, hc.sign_eq]

end ComparesViews

omit [DecidableEq α] in
theorem nul_notMem_map_fold (folding : Bool) (h : CodeUnit.nul ∉ s) :
    CodeUnit.nul ∉ s.map (fold folding) := by
  intro hmem
  obtain ⟨a, ha, hnul⟩ := List.mem_map.1 hmem
  rw [((carries_fold folding).eq_nul_iff a).1 hnul] at ha
  exact h ha

omit [DecidableEq α] in
theorem map_fold_false (s : List α) : s.map (fold false) = s := List.map_id s

/-- Of a buffer the string in it is seen, no more of it than the limit, and folded. -/
theorem comparesViews_compare (folding : Bool) (n : Nat) :
    ComparesViews (fun s : List α => ((content s).take n).map (fold folding))
      (compare folding n) where
  nul_notMem s := nul_notMem_map_fold folding fun hmem =>
    nul_notMem_content s (List.mem_of_mem_take hmem)
  sign_eq s t := by
    rw [compareAll_map_fold_take, compare_content_left, compare_content_right]

theorem comparesViews_compareAll (folding : Bool) :
    ComparesViews (fun s : List α => (content s).map (fold folding)) (compareAll folding) where
  nul_notMem s := nul_notMem_map_fold folding (nul_notMem_content s)
  sign_eq s t := by
    rw [(carries_fold folding).compareAll_map, compareAll_eq, compareAll_eq, content_content,
      compare_content_left, compare_content_right]

theorem comparesViews_plain (n : Nat) :
    ComparesViews (fun s : List α => (content s).take n) (compare false n) := by
  have h : ComparesViews _ (compare false n : List α → List α → Int) := comparesViews_compare false n
  simpa only [map_fold_false] using h

theorem comparesViews_plainAll : ComparesViews (content : List α → List α) (compareAll false) := by
  have h : ComparesViews _ (compareAll false : List α → List α → Int) :=
    comparesViews_compareAll false
  simpa only [map_fold_false] using h

theorem ComparesViews.orders_bytes {view : List UInt8 → List UInt8}
    {cmp : List UInt8 → List UInt8 → Int} (hc : ComparesViews view cmp) :
    Orders view (fun a => (a.toNat : Int)) cmp :=
  hc.orders

theorem ComparesViews.orders_wide {view : List UInt32 → List UInt32}
    {cmp : List UInt32 → List UInt32 → Int} (hc : ComparesViews view cmp) :
    Orders view (fun a => a.toInt32.toInt) fun s t => (cmp s t).sign := by
  have hnumber : (fun a : UInt32 => a.toInt32.toInt) = CodeUnit.signed :=
    funext fun a => (signedWide_eq a).symm
  rw [hnumber]
  exact hc.sign.orders

open Byte Wide

/-- Each comparison of strings, of bytes and of wide units, with a limit and without, is a total
preorder of the buffers, whether they have terminators or not. It answers zero just where the
strings in the buffers, cut at the limit and in small letters where the comparison does not regard
case, are the same. For others the sign of the answer is that of the first two units that differ,
the end of a string being a unit zero. Bytes are unsigned numbers there, and wide units signed ones
of 32 bits. -/
theorem comparisons_order :
    -- Bytes.
    Orders content (fun a => (a.toNat : Int)) strcmp ∧
    (∀ n, Orders (fun s => (content s).take n) (fun a => (a.toNat : Int)) (strncmp · · n)) ∧
    Orders (fun s => (content s).map Ascii.lower) (fun a => (a.toNat : Int)) strcasecmp ∧
    (∀ n, Orders (fun s => ((content s).take n).map Ascii.lower) (fun a => (a.toNat : Int))
      (strncasecmp · · n)) ∧
    -- Wide units.
    Orders content (fun a => a.toInt32.toInt) wcscmp ∧
    (∀ n, Orders (fun s => (content s).take n) (fun a => a.toInt32.toInt) (wcsncmp · · n)) ∧
    Orders (fun s => (content s).map lowerWide) (fun a => a.toInt32.toInt) wcscasecmp ∧
    ∀ n, Orders (fun s => ((content s).take n).map lowerWide) (fun a => a.toInt32.toInt)
      (wcsncasecmp · · n) :=
  ⟨comparesViews_plainAll.orders_bytes, fun n => (comparesViews_plain n).orders_bytes,
    (comparesViews_compareAll true).orders_bytes,
    fun n => (comparesViews_compare true n).orders_bytes, comparesViews_plainAll.orders_wide,
    fun n => (comparesViews_plain n).orders_wide, (comparesViews_compareAll true).orders_wide,
    fun n => (comparesViews_compare true n).orders_wide⟩

end CString

end CText
