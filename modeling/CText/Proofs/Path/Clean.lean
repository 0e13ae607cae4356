import CText.Proofs.Path.Stack

/-!
# Clean paths

A clean path is its front, which is the root or nothing, and the components of a stack joined by
slashes, the dot standing for a path that would be empty. The stack can be read off the path again.
-/

namespace CText.Path

variable {rooted : Bool} {names parts : List (List UInt8)} {ups : Nat} {path : List UInt8}

/-- What a path begins with: the root, or nothing. -/
def rootOf (rooted : Bool) : List UInt8 := if rooted then [slash] else []

def body (path : List UInt8) : List UInt8 := path.drop (rootOf (isAbsolute path)).length

theorem rootOf_append_body (path : List UInt8) : rootOf (isAbsolute path) ++ body path = path := by
  rw [body]
  cases h : isAbsolute path with
  | false => rfl
  | true =>
    cases path with
    | nil => cases h
    | cons c rest =>
      have hc : c = slash := by simpa [isAbsolute] using h
      rw [hc]
      rfl

theorem isAbsolute_rootOf_append {path : List UInt8} (h : ∀ c ∈ path.head?, c ≠ slash) :
    isAbsolute (rootOf rooted ++ path) = rooted := by
  cases rooted with
  | true => rfl
  | false =>
    cases path with
    | nil => rfl
    | cons c rest =>
      have hc : c ≠ slash := h c rfl
      simpa [rootOf, isAbsolute] using hc

/-- The walk begins behind the front. -/
theorem foldl_push_body (above : List (List UInt8)) (path : List UInt8) :
    (split (body path)).foldl (push rooted) above = (split path).foldl (push rooted) above := by
  have hpath := rootOf_append_body path
  cases h : isAbsolute path with
  | false =>
    rw [h] at hpath
    exact congrArg (fun p => (split p).foldl (push rooted) above) hpath
  | true =>
    rw [h] at hpath
    have hsplit : split (rootOf true ++ body path) = [] :: split (body path) :=
      fields_cons_separator (by decide) _
    rw [hpath] at hsplit
    rw [hsplit, List.foldl_cons, push_skip _ (.inl rfl)]

theorem ofComponents_eq (rooted : Bool) (parts : List (List UInt8)) :
    ofComponents rooted parts =
      if (rootOf rooted ++ joinWith slash parts).isEmpty then dot
      else rootOf rooted ++ joinWith slash parts := by
  cases rooted <;> rfl

/-- The stack that the walk over a path leaves. -/
def walk (path : List UInt8) : List (List UInt8) :=
  (split path).foldl (push (isAbsolute path)) []

theorem clean_eq (path : List UInt8) :
    clean path = ofComponents (isAbsolute (CString.content path))
      (walk (CString.content path)).reverse :=
  rfl

theorem exists_walk (path : List UInt8) :
    ∃ names ups, IsStack (isAbsolute path) names ups ∧ walk path = stack names ups :=
  (isStack_nil _).run fun _ hpart => slash_notMem_of_mem_split hpart

theorem mem_push {above : List (List UInt8)} {part other : List UInt8}
    (h : other ∈ push rooted above part) : other ∈ above ∨ other = part := by
  rcases push_cases rooted above part with hpush | hpush | ⟨_, top, hpush⟩
  · rw [hpush] at h
    exact .inl h
  · rw [hpush] at h
    exact (List.mem_cons.1 h).symm
  · rw [hpush]
    exact .inl (List.mem_cons_of_mem _ h)

/-- The walk makes up no components. -/
theorem mem_foldl_push {above parts : List (List UInt8)} {other : List UInt8}
    (h : other ∈ parts.foldl (push rooted) above) : other ∈ above ∨ other ∈ parts := by
  induction parts generalizing above with
  | nil => exact .inl h
  | cons part parts ih =>
    rcases ih h with h | h
    · rcases mem_push h with h | h
      · exact .inl h
      · exact .inr (by rw [h]; exact List.mem_cons_self)
    · exact .inr (List.mem_cons_of_mem _ h)

/-- A path is not made longer, unless it is empty. -/
theorem length_clean_le (path : List UInt8) :
    (clean path).length ≤ max 1 (CString.content path).length := by
  rw [clean_eq]
  generalize CString.content path = s
  have hlen := congrArg List.length (rootOf_append_body s)
  have hweight : weight (walk s) ≤ (body s).length + 1 := by
    have hbody : weight (split (body s)) = (body s).length + 1 := weight_fields _
    have hpush : weight ((split (body s)).foldl (push (isAbsolute s)) []) ≤
        weight ([] : List (List UInt8)) + weight (split (body s)) := weight_foldl_push_le _ _
    rwa [foldl_push_body, hbody, weight_nil, Nat.zero_add] at hpush
  have hjoined : (joinWith slash (walk s).reverse).length ≤ (body s).length := by
    by_cases hnil : (walk s).reverse = []
    · rw [hnil]
      exact Nat.zero_le _
    · have h : (joinWith slash (walk s).reverse).length + 1 = weight (walk s).reverse :=
        length_joinWith hnil
      rw [weight_reverse] at h
      omega
  rw [List.length_append] at hlen
  rw [ofComponents_eq]
  split
  · exact Nat.le_max_left 1 _
  · rw [List.length_append]
    omega

theorem isAbsolute_content (path : List UInt8) :
    isAbsolute (CString.content path) = isAbsolute path := by
  cases path with
  | nil => rfl
  | cons c rest =>
    by_cases hc : c = CodeUnit.nul
    · subst hc
      rfl
    · simp [CString.content, isAbsolute, hc]

theorem isAbsolute_append (h : isAbsolute path = true) (rest : List UInt8) :
    isAbsolute (path ++ rest) = true := by
  cases path with
  | nil => cases h
  | cons c others => exact h

theorem isAbsolute_append_of_ne_nil (hne : path ≠ []) (rest : List UInt8) :
    isAbsolute (path ++ rest) = isAbsolute path := by
  cases path with
  | nil => exact absurd rfl hne
  | cons c others => rfl

theorem isAbsolute_of_notMem (hslash : slash ∉ path) : isAbsolute path = false := by
  cases path with
  | nil => rfl
  | cons c rest =>
    rw [List.mem_cons, not_or] at hslash
    simpa [isAbsolute] using Ne.symm hslash.1

theorem clean_content (path : List UInt8) : clean (CString.content path) = clean path := by
  rw [clean_eq, clean_eq, CString.content_content]

theorem split_ofComponents_rooted (parts : List (List UInt8)) :
    split (ofComponents true parts) = [] :: split (joinWith slash parts) :=
  fields_cons_separator (by decide) _

/-- The walk over a path written from components is the walk over these. -/
theorem foldl_push_ofComponents (h : ∀ part ∈ parts, slash ∉ part) (written : Bool)
    (above : List (List UInt8)) :
    (split (ofComponents written parts)).foldl (push rooted) above =
      parts.foldl (push rooted) above := by
  have hempty : push rooted above [] = above := push_skip above (.inl rfl)
  have hdot : push rooted above dot = above := push_skip above (.inr rfl)
  have hjoined : (split (joinWith slash parts)).foldl (push rooted) above =
      parts.foldl (push rooted) above := by
    by_cases hnil : parts = []
    · subst hnil
      exact hempty
    · have hsplit : split (joinWith slash parts) = parts :=
        fields_joinWith (by decide) hnil fun part hpart => ne_slash_of_notMem (h part hpart)
      rw [hsplit]
  rw [← hjoined]
  cases written with
  | true =>
    rw [split_ofComponents_rooted, List.foldl_cons, push_skip _ (.inl rfl)]
  | false =>
    rw [ofComponents_eq, rootOf, if_neg Bool.false_ne_true, List.nil_append]
    split
    · rename_i hnone
      rw [List.isEmpty_iff.1 hnone]
      exact hdot.trans hempty.symm
    · rfl

theorem mem_ofComponents {c : UInt8} (h : c ∈ ofComponents rooted parts) :
    c = slash ∨ c ∈ dot ∨ ∃ part ∈ parts, c ∈ part := by
  rw [ofComponents_eq] at h
  split at h
  · exact .inr (.inl h)
  · rcases List.mem_append.1 h with h | h
    · cases rooted with
      | true => exact .inl (List.mem_singleton.1 h)
      | false => cases h
    · rcases mem_joinWith h with h | h
      · exact .inl h
      · exact .inr (.inr h)

/-- A path is rooted as it was written to be. -/
theorem isAbsolute_ofComponents (h : ∀ part ∈ parts, part ≠ [] ∧ slash ∉ part) :
    isAbsolute (ofComponents rooted parts) = rooted := by
  rw [ofComponents_eq]
  split
  · rename_i hempty
    cases rooted with
    | true => cases hempty
    | false => rfl
  · refine isAbsolute_rootOf_append ?_
    cases parts with
    | nil =>
      intro c hc
      cases hc
    | cons part others =>
      obtain ⟨hne, hslash⟩ := h part List.mem_cons_self
      obtain ⟨first, rest, rfl⟩ := List.exists_cons_of_ne_nil hne
      have hhead : (joinWith slash ((first :: rest) :: others)).head? = some first := by
        cases others <;> rfl
      rw [hhead]
      rintro c hc rfl
      exact hslash (by rw [Option.mem_some.1 hc]; exact List.mem_cons_self)

/-- The components of a rooted path are those it was written from. -/
theorem components_ofComponents (h : ∀ part ∈ parts, part ≠ [] ∧ slash ∉ part) :
    components (ofComponents true parts) = parts := by
  rw [components, split_ofComponents_rooted, List.filter_cons_of_neg (by simp)]
  by_cases hnil : parts = []
  · subst hnil
    rfl
  · have hjoined : split (joinWith slash parts) = parts :=
      fields_joinWith (by decide) hnil fun part hpart => ne_slash_of_notMem (h part hpart).2
    rw [hjoined]
    refine List.filter_eq_self.2 fun part hpart => ?_
    rw [Bool.not_eq_true', List.isEmpty_eq_false_iff]
    exact (h part hpart).1

theorem IsStack.mem_reverse (h : IsStack rooted names ups) :
    ∀ part ∈ (stack names ups).reverse, part ≠ [] ∧ slash ∉ part := by
  intro part hpart
  rw [List.mem_reverse, stack, List.mem_append] at hpart
  rcases hpart with hpart | hpart
  · exact ⟨(h.ordinary part hpart).ne_nil, (h.ordinary part hpart).no_slash⟩
  · rw [List.eq_of_mem_replicate hpart]
    decide

/-- A path in clean form: what a stack is written as, with no terminator in its names. -/
structure Canonical (rooted : Bool) (names : List (List UInt8)) (ups : Nat) (path : List UInt8) :
    Prop where
  isStack : IsStack rooted names ups
  no_nul : ∀ part ∈ names, CodeUnit.nul ∉ part
  eq_ofComponents : path = ofComponents rooted (stack names ups).reverse

theorem Canonical.isAbsolute_eq (h : Canonical rooted names ups path) :
    isAbsolute path = rooted := by
  rw [h.eq_ofComponents]
  exact isAbsolute_ofComponents h.isStack.mem_reverse

theorem Canonical.content_eq (h : Canonical rooted names ups path) :
    CString.content path = path := by
  refine CString.content_eq_self fun hnul => ?_
  rw [h.eq_ofComponents] at hnul
  rcases mem_ofComponents hnul with hnul | hnul | ⟨part, hpart, hnul⟩
  · exact absurd hnul (by decide)
  · exact absurd hnul (by decide)
  · rw [List.mem_reverse, stack, List.mem_append] at hpart
    rcases hpart with hpart | hpart
    · exact h.no_nul part hpart hnul
    · rw [List.eq_of_mem_replicate hpart] at hnul
      exact absurd hnul (by decide)

/-- Over a clean path the walk does to a stack what the stack written there does. -/
theorem Canonical.foldl_push_eq (h : Canonical rooted names ups path) {other : Bool}
    (above : List (List UInt8)) :
    (split path).foldl (push other) above = (stack names ups).reverse.foldl (push other) above := by
  rw [h.eq_ofComponents]
  exact foldl_push_ofComponents (fun part hpart => (h.isStack.mem_reverse part hpart).2) _ _

theorem Canonical.walk_eq (h : Canonical rooted names ups path) : walk path = stack names ups := by
  rw [walk, h.foldl_push_eq, h.isAbsolute_eq]
  exact foldl_push_reverse_stack h.isStack

theorem Canonical.clean_eq (h : Canonical rooted names ups path) : clean path = path := by
  rw [Path.clean_eq, h.content_eq, h.isAbsolute_eq, h.walk_eq]
  exact h.eq_ofComponents.symm

theorem Canonical.components_eq (h : Canonical true names ups path) :
    components path = names.reverse := by
  rw [h.eq_ofComponents, components_ofComponents h.isStack.mem_reverse, h.isStack.rooted_ups rfl,
    stack_zero]

/-- The components of a clean rooted path are written as that path again. -/
theorem Canonical.ofComponents_components (h : Canonical true names ups path) :
    ofComponents true (components path) = path := by
  rw [h.components_eq, h.eq_ofComponents, h.isStack.rooted_ups rfl, stack_zero]

theorem Canonical.ordinary (h : Canonical true names ups path) :
    ∀ part ∈ components path, Ordinary part := by
  intro part hpart
  rw [h.components_eq, List.mem_reverse] at hpart
  exact h.isStack.ordinary part hpart

/-- Cleaning brings every path into clean form. -/
theorem canonical_clean (path : List UInt8) :
    ∃ names ups, Canonical (isAbsolute path) names ups (clean path) := by
  obtain ⟨names, ups, hstack, hwalk⟩ := exists_walk (CString.content path)
  have hclean := clean_eq path
  rw [isAbsolute_content] at hstack hclean
  rw [hwalk] at hclean
  refine ⟨names, ups, hstack, ?_, hclean⟩
  intro part hpart hnul
  have hmem : part ∈ walk (CString.content path) := by
    rw [hwalk]
    exact List.mem_append_left _ hpart
  rcases mem_foldl_push hmem with hmem | hmem
  · cases hmem
  · exact CString.nul_notMem_content path (mem_of_mem_fields hmem hnul)

theorem isAbsolute_clean (path : List UInt8) : isAbsolute (clean path) = isAbsolute path := by
  obtain ⟨names, ups, hcanonical⟩ := canonical_clean path
  exact hcanonical.isAbsolute_eq

theorem content_clean (path : List UInt8) : CString.content (clean path) = clean path := by
  obtain ⟨names, ups, hcanonical⟩ := canonical_clean path
  exact hcanonical.content_eq

theorem clean_clean (path : List UInt8) : clean (clean path) = clean path := by
  obtain ⟨names, ups, hcanonical⟩ := canonical_clean path
  exact hcanonical.clean_eq

theorem length_clean_le_of_isAbsolute (habsolute : isAbsolute path = true) :
    (clean path).length ≤ path.length := by
  have hclean := length_clean_le path
  have hcontent := CString.content_length_le path
  have hpos : 1 ≤ path.length := by
    cases path with
    | nil => cases habsolute
    | cons c rest => exact Nat.le_add_left 1 _
  omega

/-- The walk over the clean path ends where the walk over the path ends. -/
theorem walk_clean (path : List UInt8) : walk (clean path) = walk (CString.content path) := by
  obtain ⟨names, ups, hstack, hwalk⟩ := exists_walk (CString.content path)
  rw [clean_eq, hwalk, walk, isAbsolute_ofComponents hstack.mem_reverse,
    foldl_push_ofComponents fun part hpart => (hstack.mem_reverse part hpart).2]
  exact foldl_push_reverse_stack hstack

/-- Under a rooted path the walk goes on from where it led. -/
theorem clean_under (habsolute : isAbsolute path = true) (hnul : CodeUnit.nul ∉ path)
    (file : List UInt8) :
    clean (path ++ slash :: file) =
      ofComponents true ((split (CString.content file)).foldl (push true) (walk path)).reverse := by
  have hslash : slash ≠ CodeUnit.nul := by decide
  have hsplit : split (path ++ slash :: CString.content file) =
      split path ++ split (CString.content file) := fields_append (by decide) _ _
  rw [clean_eq, CString.content_append hnul, CString.content_cons hslash,
    isAbsolute_append habsolute, walk, isAbsolute_append habsolute, hsplit, List.foldl_append, walk,
    habsolute]

/-- A rooted path may be cleaned before another is put under it. -/
theorem clean_under_clean (habsolute : isAbsolute path = true) (hnul : CodeUnit.nul ∉ path)
    (file : List UInt8) : clean (clean path ++ slash :: file) = clean (path ++ slash :: file) := by
  have hclean : CodeUnit.nul ∉ clean path := by
    rw [← content_clean]
    exact CString.nul_notMem_content _
  rw [clean_under ((isAbsolute_clean path).trans habsolute) hclean, clean_under habsolute hnul,
    walk_clean, CString.content_eq_self hnul]

end CText.Path
