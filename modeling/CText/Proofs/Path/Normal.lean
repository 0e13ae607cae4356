import CText.Proofs.Path.InPlace

/-!
# Paths in normal form

A path in normal form is the dot, the root, or names with one slash between neighbours, behind a
slash or behind pairs of dots. What cleaning leaves is in normal form, and it leaves a path as it is
that is in normal form already. So the normal forms are the paths that cleaning does not change, and
to clean a path twice is to clean it once.
-/

namespace CText.Path

variable {rooted : Bool} {names : List (List UInt8)} {ups : Nat} {path : List UInt8}

/-- The shapes of a path in normal form. -/
inductive Tidy : List UInt8 → Prop where
  | dot : Tidy dot
  | root : Tidy [slash]
  /-- Names behind a slash. -/
  | rooted {names : List (List UInt8)} (hnames : ∀ name ∈ names, Ordinary name)
      (hne : names ≠ []) : Tidy (slash :: joinWith slash names)
  /-- Names behind pairs of dots. -/
  | relative {ups : Nat} {names : List (List UInt8)} (hnames : ∀ name ∈ names, Ordinary name)
      (hne : List.replicate ups dotdot ++ names ≠ []) :
      Tidy (joinWith slash (List.replicate ups dotdot ++ names))

/-- A path in normal form has one of the shapes and no terminator. -/
structure Normal (path : List UInt8) : Prop where
  no_nul : CodeUnit.nul ∉ path
  tidy : Tidy path

theorem ofComponents_of_ne_nil {parts : List (List UInt8)} (hne : parts ≠ []) (hnil : [] ∉ parts) :
    ofComponents rooted parts = rootOf rooted ++ joinWith slash parts := by
  have hjoined : joinWith slash parts ≠ [] := fun h => hne ((joinWith_eq_nil_iff hnil).1 h)
  rw [ofComponents_eq, if_neg]
  rw [List.isEmpty_iff, List.append_eq_nil_iff]
  exact fun h => hjoined h.2

theorem IsStack.nil_notMem (h : IsStack rooted names ups) : [] ∉ (stack names ups).reverse :=
  fun hnil => (h.mem_reverse [] hnil).1 rfl

/-- A stack is written in one of the shapes. -/
theorem IsStack.tidy (h : IsStack rooted names ups) :
    Tidy (ofComponents rooted (stack names ups).reverse) := by
  have hordinary : ∀ name ∈ names.reverse, Ordinary name :=
    fun name hname => h.ordinary name (List.mem_reverse.1 hname)
  by_cases hne : (stack names ups).reverse = []
  · rw [hne]
    cases rooted with
    | true => exact .root
    | false => exact .dot
  · rw [ofComponents_of_ne_nil hne h.nil_notMem]
    cases rooted with
    | true =>
      rw [h.rooted_ups rfl, stack_zero] at hne ⊢
      exact .rooted hordinary hne
    | false =>
      rw [reverse_stack] at hne ⊢
      exact .relative hordinary hne

theorem Canonical.normal (h : Canonical rooted names ups path) : Normal path where
  no_nul := by
    rw [← h.content_eq]
    exact CString.nul_notMem_content path
  tidy := by
    rw [h.eq_ofComponents]
    exact h.isStack.tidy

/-- Pairs of dots and names with a front are what a stack of them is written as. -/
theorem canonical_of_names (hnames : ∀ name ∈ names, Ordinary name)
    (hrooted : rooted = true → ups = 0) (hne : List.replicate ups dotdot ++ names ≠ [])
    (hnul : CodeUnit.nul ∉
      rootOf rooted ++ joinWith slash (List.replicate ups dotdot ++ names)) :
    Canonical rooted names.reverse ups
      (rootOf rooted ++ joinWith slash (List.replicate ups dotdot ++ names)) := by
  have hstack : IsStack rooted names.reverse ups :=
    ⟨fun part hpart => hnames part (List.mem_reverse.1 hpart), hrooted⟩
  have hnil := hstack.nil_notMem
  have hreverse : (stack names.reverse ups).reverse = List.replicate ups dotdot ++ names := by
    rw [reverse_stack, List.reverse_reverse]
  refine ⟨hstack, ?_, ?_⟩
  · intro part hpart hmem
    have hparts : part ∈ List.replicate ups dotdot ++ names :=
      List.mem_append_right _ (List.mem_reverse.1 hpart)
    exact hnul (List.mem_append_right _ (mem_joinWith_of_mem hparts hmem))
  · rw [hreverse] at hnil ⊢
    exact (ofComponents_of_ne_nil hne hnil).symm

/-- Every path in normal form is what some stack is written as. -/
theorem Normal.exists_canonical (h : Normal path) :
    ∃ rooted names ups, Canonical rooted names ups path := by
  obtain ⟨hnul, htidy⟩ := h
  cases htidy with
  | dot => exact ⟨false, [], 0, isStack_nil false, nofun, rfl⟩
  | root => exact ⟨true, [], 0, isStack_nil true, nofun, rfl⟩
  | rooted hnames hne => exact ⟨true, _, 0, canonical_of_names hnames (fun _ => rfl) hne hnul⟩
  | relative hnames hne => exact ⟨false, _, _, canonical_of_names hnames nofun hne hnul⟩

theorem normal_clean (path : List UInt8) : Normal (clean path) := by
  obtain ⟨names, ups, hcanonical⟩ := canonical_clean path
  exact hcanonical.normal

/-- Exactly the normal forms are clean already. -/
theorem clean_eq_self_iff : clean path = path ↔ Normal path := by
  constructor
  · intro h
    rw [← h]
    exact normal_clean path
  · intro h
    obtain ⟨rooted, names, ups, hcanonical⟩ := h.exists_canonical
    exact hcanonical.clean_eq

instance : DecidablePred Normal := fun _ => decidable_of_iff _ clean_eq_self_iff

/-- Cleaning in place answers for every path, with a path in normal form; the paths in normal form
are exactly those that it leaves as they are; and cleaning its answer once more changes nothing. -/
theorem cleanInPlace_fixes_normal_forms (path : List UInt8) :
    (∃ cleaned, cleanInPlace path = .ok cleaned ∧ Normal cleaned) ∧
      (cleanInPlace path = .ok path ↔ Normal path) ∧
      (cleanInPlace path >>= cleanInPlace) = cleanInPlace path := by
  have hagain : cleanInPlace (clean path) = .ok (clean path) := by
    rw [cleanInPlace_eq, clean_clean]
  rw [cleanInPlace_eq]
  refine ⟨⟨clean path, rfl, normal_clean path⟩, ?_, hagain⟩
  rw [Except.ok.injEq]
  exact clean_eq_self_iff

example : Normal (Ascii.bytes "../../a/..b") ∧ ¬ Normal (Ascii.bytes "a/../b") := by decide

end CText.Path
