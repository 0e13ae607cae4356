import CText.Fields

/-!
# Falling into fields and joining

Falling into fields undoes joining, provided that no field holds a separator and there is at least
one. With one unit counted for the separator in front of each field, the sizes of the fields add up
to the size of the list.
-/

namespace CText

variable {α : Type} {separates : α → Bool} {separator : α}

theorem fields_ne_nil (s : List α) : fields separates s ≠ [] := by
  cases s with
  | nil => simp [fields]
  | cons a rest =>
    rw [fields]
    split
    · simp
    · split <;> simp

theorem fields_cons_separator {a : α} (ha : separates a = true) (rest : List α) :
    fields separates (a :: rest) = [] :: fields separates rest := by
  rw [fields, if_pos ha]

/-- A unit that does not separate joins the first field of what follows it. -/
theorem fields_cons_other {a : α} (ha : separates a = false) (rest : List α) :
    ∃ field others, fields separates rest = field :: others ∧
      fields separates (a :: rest) = (a :: field) :: others := by
  cases h : fields separates rest with
  | nil => exact absurd h (fields_ne_nil rest)
  | cons field others =>
    refine ⟨field, others, rfl, ?_⟩
    rw [fields, ha, h]
    rfl

theorem length_fields (s : List α) :
    (fields separates s).length = s.countP separates + 1 := by
  induction s with
  | nil => rfl
  | cons a rest ih =>
    by_cases ha : separates a = true
    · rw [fields_cons_separator ha, List.length_cons, ih, List.countP_cons_of_pos ha]
    · rw [Bool.not_eq_true] at ha
      obtain ⟨field, others, hrest, hfields⟩ := fields_cons_other ha rest
      rw [hrest] at ih
      rw [hfields, List.countP_cons_of_neg (by simp [ha]), ← ih, List.length_cons,
        List.length_cons]

theorem fields_of_free {s : List α} (h : ∀ a ∈ s, separates a = false) :
    fields separates s = [s] := by
  induction s with
  | nil => rfl
  | cons a rest ih =>
    obtain ⟨field, others, hrest, hfields⟩ := fields_cons_other (h a List.mem_cons_self) rest
    rw [ih fun b hb => h b (List.mem_cons_of_mem _ hb)] at hrest
    cases hrest
    exact hfields

/-- A separator cuts a list in two that fall into fields on their own. -/
theorem fields_append {a : α} (ha : separates a = true) (s t : List α) :
    fields separates (s ++ a :: t) = fields separates s ++ fields separates t := by
  induction s with
  | nil => exact fields_cons_separator ha t
  | cons b rest ih =>
    by_cases hb : separates b = true
    · rw [List.cons_append, fields_cons_separator hb, fields_cons_separator hb, ih]
      rfl
    · rw [Bool.not_eq_true] at hb
      obtain ⟨field, others, hrest, hfields⟩ := fields_cons_other hb rest
      obtain ⟨field', others', hrest', hfields'⟩ := fields_cons_other hb (rest ++ a :: t)
      rw [ih, hrest] at hrest'
      cases hrest'
      rw [List.cons_append, hfields, hfields']
      rfl

/-- Units that do not separate join the first field of what follows them. -/
theorem fields_append_free {s : List α} (h : ∀ a ∈ s, separates a = false) (t : List α) :
    ∃ field others, fields separates t = field :: others ∧
      fields separates (s ++ t) = (s ++ field) :: others := by
  induction s with
  | nil =>
    have hne : fields separates t ≠ [] := fields_ne_nil t
    obtain ⟨field, others, ht⟩ := List.exists_cons_of_ne_nil hne
    exact ⟨field, others, ht, ht⟩
  | cons a rest ih =>
    obtain ⟨field, others, ht, hrest⟩ := ih fun b hb => h b (List.mem_cons_of_mem _ hb)
    obtain ⟨first, tail, hfirst, hfields⟩ :=
      fields_cons_other (h a List.mem_cons_self) (rest ++ t)
    rw [hrest] at hfirst
    cases hfirst
    exact ⟨field, others, ht, hfields⟩

theorem free_of_mem_fields {s field : List α} (h : field ∈ fields separates s) :
    ∀ a ∈ field, separates a = false := by
  induction s generalizing field with
  | nil =>
    rw [List.mem_singleton.1 h]
    intro a ha
    cases ha
  | cons b rest ih =>
    by_cases hb : separates b = true
    · rw [fields_cons_separator hb] at h
      rcases List.mem_cons.1 h with rfl | h
      · intro a ha
        cases ha
      · exact ih h
    · rw [Bool.not_eq_true] at hb
      obtain ⟨first, others, hrest, hfields⟩ := fields_cons_other hb rest
      rw [hfields] at h
      rcases List.mem_cons.1 h with rfl | h
      · intro a ha
        rcases List.mem_cons.1 ha with rfl | ha
        · exact hb
        · exact ih (by rw [hrest]; exact List.mem_cons_self) a ha
      · exact ih (by rw [hrest]; exact List.mem_cons_of_mem _ h)

/-- The fields are made of the list's own units. -/
theorem mem_of_mem_fields {s field : List α} {a : α} (h : field ∈ fields separates s)
    (ha : a ∈ field) : a ∈ s := by
  induction s generalizing field with
  | nil =>
    rw [List.mem_singleton.1 h] at ha
    exact ha
  | cons b rest ih =>
    by_cases hb : separates b = true
    · rw [fields_cons_separator hb] at h
      rcases List.mem_cons.1 h with rfl | h
      · cases ha
      · exact List.mem_cons_of_mem _ (ih h ha)
    · rw [Bool.not_eq_true] at hb
      obtain ⟨first, others, hrest, hfields⟩ := fields_cons_other hb rest
      rw [hrest] at ih
      rw [hfields] at h
      rcases List.mem_cons.1 h with rfl | h
      · rcases List.mem_cons.1 ha with rfl | ha
        · exact List.mem_cons_self
        · exact List.mem_cons_of_mem _ (ih List.mem_cons_self ha)
      · exact List.mem_cons_of_mem _ (ih (List.mem_cons_of_mem _ h) ha)

theorem joinWith_cons_of_ne_nil {others : List (List α)} (h : others ≠ []) (field : List α) :
    joinWith separator (field :: others) = field ++ separator :: joinWith separator others := by
  cases others with
  | nil => exact absurd rfl h
  | cons next others => rfl

/-- One more field comes behind a separator, unless it is the first. -/
theorem joinWith_concat (done : List (List α)) (field : List α) :
    joinWith separator (done ++ [field]) =
      joinWith separator done ++ ((if done = [] then [] else [separator]) ++ field) := by
  induction done with
  | nil => rfl
  | cons first others ih =>
    rw [List.cons_append, joinWith_cons_of_ne_nil (by simp), ih, if_neg (List.cons_ne_nil _ _)]
    by_cases h : others = []
    · subst h
      simp [joinWith]
    · rw [joinWith_cons_of_ne_nil h, if_neg h]
      simp

theorem joinWith_eq_nil_iff {parts : List (List α)} (h : [] ∉ parts) :
    joinWith separator parts = [] ↔ parts = [] := by
  constructor
  · intro hjoin
    cases parts with
    | nil => rfl
    | cons field others =>
      have hfield : field ≠ [] := fun hnil => h (by rw [hnil]; exact List.mem_cons_self)
      by_cases hothers : others = []
      · rw [hothers] at hjoin
        exact absurd hjoin hfield
      · rw [joinWith_cons_of_ne_nil hothers, List.append_eq_nil_iff] at hjoin
        exact absurd hjoin.1 hfield
  · rintro rfl
    rfl

theorem mem_joinWith {parts : List (List α)} {a : α} (h : a ∈ joinWith separator parts) :
    a = separator ∨ ∃ field ∈ parts, a ∈ field := by
  induction parts with
  | nil => cases h
  | cons field others ih =>
    by_cases hothers : others = []
    · rw [hothers] at h
      exact .inr ⟨field, List.mem_cons_self, h⟩
    · rw [joinWith_cons_of_ne_nil hothers, List.mem_append, List.mem_cons] at h
      rcases h with h | h | h
      · exact .inr ⟨field, List.mem_cons_self, h⟩
      · exact .inl h
      · rcases ih h with h | ⟨other, hother, h⟩
        · exact .inl h
        · exact .inr ⟨other, List.mem_cons_of_mem _ hother, h⟩

theorem mem_joinWith_of_mem {parts : List (List α)} {field : List α} {a : α} (h : field ∈ parts)
    (ha : a ∈ field) : a ∈ joinWith separator parts := by
  induction parts with
  | nil => cases h
  | cons first others ih =>
    by_cases hothers : others = []
    · rw [hothers] at h ⊢
      rw [← List.mem_singleton.1 h]
      exact ha
    · rw [joinWith_cons_of_ne_nil hothers, List.mem_append, List.mem_cons]
      rcases List.mem_cons.1 h with rfl | h
      · exact .inl ha
      · exact .inr (.inr (ih h))

theorem fields_joinWith {parts : List (List α)} (hsep : separates separator = true)
    (hne : parts ≠ []) (hfree : ∀ field ∈ parts, ∀ a ∈ field, separates a = false) :
    fields separates (joinWith separator parts) = parts := by
  induction parts with
  | nil => exact absurd rfl hne
  | cons field others ih =>
    have hfield := fields_of_free (hfree field List.mem_cons_self)
    by_cases hothers : others = []
    · rw [hothers]
      exact hfield
    · rw [joinWith_cons_of_ne_nil hothers, fields_append hsep, hfield,
        ih hothers fun f hf => hfree f (List.mem_cons_of_mem _ hf)]
      rfl

/-- The size of some fields, each with the separator in front of it. -/
def weight : List (List α) → Nat
  | [] => 0
  | field :: others => field.length + 1 + weight others

@[simp] theorem weight_nil : weight ([] : List (List α)) = 0 :=
  rfl

@[simp] theorem weight_cons (field : List α) (others : List (List α)) :
    weight (field :: others) = field.length + 1 + weight others :=
  rfl

@[simp] theorem weight_append (parts others : List (List α)) :
    weight (parts ++ others) = weight parts + weight others := by
  induction parts with
  | nil => simp
  | cons field parts ih =>
    rw [List.cons_append, weight_cons, weight_cons, ih]
    omega

@[simp] theorem weight_reverse (parts : List (List α)) : weight parts.reverse = weight parts := by
  induction parts with
  | nil => rfl
  | cons field parts ih =>
    rw [List.reverse_cons, weight_append, ih, weight_cons, weight_cons, weight_nil]
    omega

theorem weight_replicate (n : Nat) (field : List α) :
    weight (List.replicate n field) = n * (field.length + 1) := by
  induction n with
  | zero => rw [Nat.zero_mul]; rfl
  | succ n ih =>
    rw [List.replicate_succ, weight_cons, ih, Nat.succ_mul, Nat.add_comm]

theorem weight_le_of_sublist {parts others : List (List α)} (h : List.Sublist parts others) :
    weight parts ≤ weight others := by
  induction h with
  | slnil => exact Nat.le_refl _
  | cons field _ ih => exact Nat.le_trans ih (Nat.le_add_left _ _)
  | cons_cons field _ ih => exact Nat.add_le_add_left ih _

theorem length_le_weight (parts : List (List α)) : parts.length ≤ weight parts := by
  induction parts with
  | nil => exact Nat.zero_le _
  | cons field others ih =>
    rw [List.length_cons, weight_cons]
    omega

theorem weight_fields (s : List α) : weight (fields separates s) = s.length + 1 := by
  induction s with
  | nil => simp [fields]
  | cons a rest ih =>
    by_cases ha : separates a = true
    · rw [fields_cons_separator ha, weight_cons, ih, List.length_nil, List.length_cons]
      omega
    · rw [Bool.not_eq_true] at ha
      obtain ⟨field, others, hrest, hfields⟩ := fields_cons_other ha rest
      rw [hrest, weight_cons] at ih
      rw [hfields, weight_cons, List.length_cons, List.length_cons]
      omega

theorem length_joinWith {parts : List (List α)} (h : parts ≠ []) :
    (joinWith separator parts).length + 1 = weight parts := by
  induction parts with
  | nil => exact absurd rfl h
  | cons field others ih =>
    by_cases hothers : others = []
    · subst hothers
      simp [joinWith]
    · have hlen := ih hothers
      rw [joinWith_cons_of_ne_nil hothers, weight_cons, List.length_append, List.length_cons]
      omega

end CText
