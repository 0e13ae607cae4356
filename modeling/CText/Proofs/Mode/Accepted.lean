import CText.Proofs.Mode.Exact
import CText.Proofs.Mode.Merging

/-!
# The accepted modes

The notation of a text is told from a few of its bytes before it is read. That goes wrong for no
text of any notation, and a text that is an exact mode and a clause as well is told to be an exact
mode. So a mode is read if and only if it is written in one of the notations, and every other text
is malformed. A mode means what its notation says, and a partial mode means its clauses, in any
order.
-/

namespace CText.Mode

variable {α β : Type} {s : List UInt8} {u : Update}

/-! ## Numeric modes -/

theorem octalValue_eq (s : List UInt8) : octalValue s = octalNumber s := by
  rw [octalNumber, Nat.ofDigits_eq_foldr, List.foldr_reverse, List.foldl_map, octalValue]
  congr 1
  funext n c
  rw [Nat.mul_comm, Nat.add_comm]
  rfl

theorem parseNumeric_eq_ok_iff :
    parseNumeric s = .ok u ↔ octalNumber s ≤ 0o7777 ∧ u = .replace (octalNumber s).toUInt32 := by
  have hlimit : allPermissions.toNat = 0o7777 := rfl
  rw [parseNumeric, octalValue_eq, hlimit]
  split
  · rename_i h
    simp [h, eq_comm]
  · rename_i h
    simp [h]

/-! ## Which notation a text is in -/

theorem classify_numeric (hne : s ≠ []) (h : ∀ c ∈ s, Ascii.isOctalDigit c = true) :
    classify s = .ok .numeric := by
  obtain ⟨c, r, rfl⟩ := List.exists_cons_of_ne_nil hne
  exact if_pos (List.all_eq_true.2 h)

theorem ExactText.exists_not_octal (t : ExactText) :
    ∃ c ∈ t.text, Ascii.isOctalDigit c = false := by
  refine ⟨flagByte (Ascii.byte 'r') t.owner.read, ?_, ?_⟩
  · simp [ExactText.text, ExactText.permissions, Triple.text]
  · cases t.owner.read <;> decide

theorem classify_exact (t : ExactText) : classify t.text = .ok .exact := by
  obtain ⟨c, hc, hoctal⟩ := t.exists_not_octal
  have hnot : t.text.all Ascii.isOctalDigit = false := by
    rw [List.all_eq_false]
    exact ⟨c, hc, by simp [hoctal]⟩
  have hshape : (isExactShaped t.text && hasExactMark t.text) = true := by
    rw [t.hasExactMark_text, isExactShaped_iff.2 ⟨t, rfl⟩]
    rfl
  obtain ⟨b, r, htext⟩ := List.exists_cons_of_ne_nil (List.ne_nil_of_mem hc)
  rw [htext] at hnot hshape ⊢
  simp only [classify, hnot, hshape]
  rfl

theorem PartialText.head (t : PartialText) : ∃ b r, t.text = b :: r ∧ b ∈ partialStart := by
  obtain ⟨c, others, hclauses⟩ := List.exists_cons_of_ne_nil t.ne_nil
  obtain ⟨b, r, htext, -, hb⟩ := c.head
  rw [PartialText.text, hclauses, List.map_cons, htext]
  cases others with
  | nil => exact ⟨b, r, rfl, hb⟩
  | cons d others => exact ⟨b, _, rfl, hb⟩

/-- A partial mode is taken for one unless it is an exact mode as well. -/
theorem classify_partial (t : PartialText) (h : ¬ ∃ e : ExactText, e.text = t.text) :
    classify t.text = .ok .clauses := by
  obtain ⟨b, r, htext, hb⟩ := t.head
  have hoctal : ∀ b ∈ partialStart, Ascii.isOctalDigit b = false := forall_mem_of_all (by decide)
  have hnot : t.text.all Ascii.isOctalDigit = false := by
    rw [List.all_eq_false]
    exact ⟨b, by simp [htext], by simp [hoctal b hb]⟩
  have hshape : isExactShaped t.text = false := by
    rw [← Bool.not_eq_true, isExactShaped_iff]
    exact h
  rw [htext] at hnot hshape ⊢
  simp [classify, hnot, hshape, hb]

/-- What a text is told to be, it has the outline of. -/
theorem classify_cases {form : Form} (h : classify s = .ok form) :
    form = .numeric ∧ s ≠ [] ∧ (∀ c ∈ s, Ascii.isOctalDigit c = true) ∨
      form = .exact ∧ (∃ t : ExactText, t.text = s) ∨ form = .clauses := by
  cases s with
  | nil => cases h
  | cons c r =>
    unfold classify at h
    dsimp only at h
    split at h
    · rename_i hoctal
      cases h
      exact .inl ⟨rfl, by simp, List.all_eq_true.1 hoctal⟩
    split at h
    · rename_i hshape
      cases h
      rw [Bool.and_eq_true] at hshape
      exact .inr (.inl ⟨rfl, isExactShaped_iff.1 hshape.1⟩)
    split at h
    · cases h
      exact .inr (.inr rfl)
    · cases h

/-! ## The three notations -/

theorem parse_numericText (t : NumericText) :
    parse t.text = .ok (.replace t.value.toUInt32) := by
  rw [parse, classify_numeric t.ne_nil t.octal]
  exact parseNumeric_eq_ok_iff.2 ⟨t.small, rfl⟩

theorem parse_exactText (t : ExactText) : parse t.text = .ok (.replace t.bits) := by
  rw [parse, classify_exact t]
  exact t.parseExact_text

theorem parse_partialText (t : PartialText) (h : ¬ ∃ e : ExactText, e.text = t.text) :
    parse t.text = .ok t.update := by
  rw [parse, classify_partial t h]
  exact parsePartial_eq_ok_iff.2 ⟨t, rfl, rfl⟩

/-- A mode that is read is written in one of the notations. -/
theorem parse_cases (h : parse s = .ok u) :
    (∃ t : NumericText, t.text = s ∧ u = .replace t.value.toUInt32) ∨
      (∃ t : ExactText, t.text = s ∧ u = .replace t.bits) ∨
      ∃ t : PartialText, t.text = s ∧ t.update = u := by
  unfold parse at h
  split at h
  · cases h
  · rename_i hform
    obtain ⟨-, hne, hoctal⟩ | ⟨hform, -⟩ | hform := classify_cases hform
    · obtain ⟨hsmall, hu⟩ := parseNumeric_eq_ok_iff.1 h
      exact .inl ⟨⟨s, hne, hoctal, hsmall⟩, rfl, hu⟩
    · cases hform
    · cases hform
  · rename_i hform
    obtain ⟨hform, -⟩ | ⟨-, t, rfl⟩ | hform := classify_cases hform
    · cases hform
    · rw [t.parseExact_text] at h
      cases h
      exact .inr (.inl ⟨t, rfl, rfl⟩)
    · cases hform
  · exact .inr (.inr (parsePartial_eq_ok_iff.1 h))

/-! ## What is refused -/

/-- Reading fails for no other reason than a malformed text. -/
def FailsMalformed (r : Except Error α) : Prop :=
  ∀ e, r = .error e → ∃ what offset, e = .invalidFormat what offset

theorem failsMalformed_ok (a : α) : FailsMalformed (.ok a) := by
  intro e h
  cases h

theorem failsMalformed_error (what : Malformed) (offset : Nat) :
    FailsMalformed (.error (.invalidFormat what offset) : Except Error α) := by
  intro e h
  cases h
  exact ⟨what, offset, rfl⟩

theorem FailsMalformed.map {r : Except Error α} (h : FailsMalformed r) (f : α → β) :
    FailsMalformed (r.map f) := by
  intro e he
  cases r with
  | error e' =>
    cases he
    exact h e rfl
  | ok a => cases he

theorem readPermissions_malformed (s : List UInt8) (offset : Nat) :
    FailsMalformed (readPermissions s offset) := by
  fun_induction readPermissions s offset with
  | case1 => exact failsMalformed_ok _
  | case2 => exact failsMalformed_ok _
  | case3 c r offset hcomma hletter ih => exact ih.map _
  | case4 => exact failsMalformed_error _ _

theorem readClause_malformed (touched : List Who) (s : List UInt8) (offset : Nat) :
    FailsMalformed (readClause touched s offset) := by
  unfold readClause
  dsimp only
  split
  · exact failsMalformed_error _ _
  split
  · exact failsMalformed_error _ _
  split
  · exact failsMalformed_error _ _
  split
  · exact failsMalformed_error _ _
  exact (readPermissions_malformed _ _).map _

theorem readClauses_malformed (touched : List Who) (s : List UInt8) (offset : Nat) :
    FailsMalformed (readClauses touched s offset) := by
  fun_induction readClauses touched s offset with
  | case1 touched s offset e hread =>
    intro e' h
    cases h
    exact readClause_malformed touched s offset e hread
  | case2 => exact failsMalformed_ok _
  | case3 => exact failsMalformed_error _ _
  | case4 =>
    rename_i ih
    exact ih.map _

theorem classify_malformed (s : List UInt8) : FailsMalformed (classify s) := by
  cases s with
  | nil => exact failsMalformed_error _ _
  | cons c r =>
    unfold classify
    dsimp only
    split
    · exact failsMalformed_ok _
    split
    · exact failsMalformed_ok _
    split
    · exact failsMalformed_ok _
    · exact failsMalformed_error _ _

theorem parseNumeric_malformed (s : List UInt8) : FailsMalformed (parseNumeric s) := by
  unfold parseNumeric
  split
  · exact failsMalformed_ok _
  · exact failsMalformed_error _ _

/-- A text that is told to be an exact mode is read without an error. -/
theorem parseExact_of_classify (h : classify s = .ok .exact) : ∃ u, parseExact s = .ok u := by
  obtain ⟨hform, -⟩ | ⟨-, t, rfl⟩ | hform := classify_cases h
  · cases hform
  · exact ⟨_, t.parseExact_text⟩
  · cases hform

/-- Whatever is refused, it is refused as malformed. -/
theorem parse_malformed (s : List UInt8) : FailsMalformed (parse s) := by
  unfold parse
  split
  · rename_i e hform
    intro e' h
    cases h
    exact classify_malformed s e hform
  · exact parseNumeric_malformed s
  · rename_i hform
    obtain ⟨u, hu⟩ := parseExact_of_classify hform
    rw [hu]
    exact failsMalformed_ok u
  · exact (readClauses_malformed [] s 0).map _

/-! ## What an update changes -/

theorem replace_within (bits : UInt32) :
    Within (Update.replace bits).bits allPermissions ∧
      Within (Update.replace bits).mask allPermissions := by
  refine ⟨fun i hi => ?_, fun _ hi => hi⟩
  rw [Update.replace, hasBit_and, Bool.and_eq_true] at hi
  exact hi.2

theorem PartialText.update_within (t : PartialText) :
    Within t.update.bits allPermissions ∧ Within t.update.mask allPermissions :=
  foldl_merge_within within_zero within_zero

/-- No mode says anything about the bits that are not permissions. -/
theorem parse_within (h : parse s = .ok u) :
    Within u.bits allPermissions ∧ Within u.mask allPermissions := by
  obtain ⟨t, -, rfl⟩ | ⟨t, -, rfl⟩ | ⟨t, -, rfl⟩ := parse_cases h
  · exact replace_within _
  · exact replace_within _
  · exact t.update_within

/-- An update leaves the bits alone that it says nothing about. -/
theorem apply_and_not {m : UInt32} (hbits : Within u.bits m) (hmask : Within u.mask m)
    (base : UInt32) : u.apply base &&& ~~~m = base &&& ~~~m := by
  apply eq_of_hasBit
  intro i hi
  have hset := hbits i
  have hcleared := hmask i
  rw [Update.apply, hasBit_and, hasBit_and, hasBit_or, hasBit_and, hasBit_not hi, hasBit_not hi]
  cases hm : hasBit m i <;> simp_all

/-! ## Clauses in another order -/

theorem ExactText.comma_notMem (t : ExactText) : comma ∉ t.text := by
  have hflag : ∀ isSet : Bool, ∀ letter ∈ Ascii.bytes "rw", flagByte letter isSet ≠ comma := by
    intro isSet
    cases isSet <;> exact forall_mem_of_all (by decide)
  have hmark : ∀ (mark : ExecMark) (who : Who), mark.byte who ≠ comma := by
    intro mark who
    cases mark <;> cases who <;> decide
  have htriple : ∀ (t : Triple) (who : Who), comma ∉ t.text who := by
    intro t who h
    rcases List.mem_cons.1 h with h | h
    · exact hflag _ _ (by decide) h.symm
    rcases List.mem_cons.1 h with h | h
    · exact hflag _ _ (by decide) h.symm
    exact hmark _ _ (List.mem_singleton.1 h).symm
  intro h
  rcases List.mem_append.1 h with h | h
  · have htype := t.type_mem comma (by simpa using h)
    exact absurd htype (by decide)
  · simp only [ExactText.permissions, List.mem_append] at h
    rcases h with h | h | h <;> exact htriple _ _ h

/-- Clauses in another order are not taken for an exact mode either: an exact mode has no comma. -/
theorem PartialText.not_exact_of_perm {t t' : PartialText} (hperm : t'.clauses.Perm t.clauses)
    (h : ¬ ∃ e : ExactText, e.text = t.text) : ¬ ∃ e : ExactText, e.text = t'.text := by
  rintro ⟨e, he⟩
  obtain ⟨c, others, hclauses⟩ := List.exists_cons_of_ne_nil t'.ne_nil
  cases others with
  | nil =>
    rw [hclauses, List.singleton_perm] at hperm
    exact h ⟨e, by rw [he, PartialText.text, PartialText.text, hclauses, hperm]⟩
  | cons d others =>
    refine e.comma_notMem ?_
    rw [he, PartialText.text, hclauses, List.map_cons, joinWith_cons_of_ne_nil (by simp)]
    simp

/-- Reading accepts the three notations and nothing else. What is written in two of them is an exact
mode. Whatever is refused is malformed, a text that is told to be an exact mode is read as one, and
no mode changes a bit that is not a permission. -/
theorem parse_accepts_notations (s : List UInt8) :
    ((∃ u, parse s = .ok u) ↔
        (∃ t : NumericText, t.text = s) ∨ (∃ t : ExactText, t.text = s) ∨
          (¬ ∃ t : NumericText, t.text = s) ∧ (¬ ∃ t : ExactText, t.text = s) ∧
            ∃ t : PartialText, t.text = s) ∧
      (∀ t : NumericText, t.text = s → parse s = .ok (.replace t.value.toUInt32)) ∧
      (∀ t : ExactText, t.text = s → parse s = .ok (.replace t.bits)) ∧
      (∀ e, parse s = .error e → ∃ what offset, e = .invalidFormat what offset) ∧
      (classify s = .ok .exact → ∃ u, parseExact s = .ok u) ∧
      ∀ u, parse s = .ok u →
        u.bits &&& ~~~allPermissions = 0 ∧ u.mask &&& ~~~allPermissions = 0 ∧
          ∀ base, u.apply base &&& ~~~allPermissions = base &&& ~~~allPermissions := by
  refine ⟨⟨?_, ?_⟩, ?_, ?_, parse_malformed s, parseExact_of_classify, ?_⟩
  · rintro ⟨u, hu⟩
    by_cases hnumeric : ∃ t : NumericText, t.text = s
    · exact .inl hnumeric
    by_cases hexact : ∃ t : ExactText, t.text = s
    · exact .inr (.inl hexact)
    obtain ⟨t, ht, -⟩ | ⟨t, ht, -⟩ | ⟨t, ht, -⟩ := parse_cases hu
    · exact absurd ⟨t, ht⟩ hnumeric
    · exact absurd ⟨t, ht⟩ hexact
    · exact .inr (.inr ⟨hnumeric, hexact, t, ht⟩)
  · rintro (⟨t, rfl⟩ | ⟨t, rfl⟩ | ⟨-, hexact, t, rfl⟩)
    · exact ⟨_, parse_numericText t⟩
    · exact ⟨_, parse_exactText t⟩
    · exact ⟨_, parse_partialText t hexact⟩
  · rintro t rfl
    exact parse_numericText t
  · rintro t rfl
    exact parse_exactText t
  · intro u hu
    obtain ⟨hbits, hmask⟩ := parse_within hu
    exact ⟨within_iff.1 hbits, within_iff.1 hmask, apply_and_not hbits hmask⟩

-- As a clause this text would take all these permissions away.
example : parse (Ascii.bytes "-rwxrwxrwx") = .ok ⟨0o777, 0o7777⟩ := by decide

/-- What a partial mode is read as does what its clauses do one after the other. The clauses in
another order are read as the same, by the reader of clauses and by the reader of modes, and a class
that no clause is about keeps its bits. -/
theorem parsePartial_runs_clauses (h : parsePartial s = .ok u) :
    (∃ t : PartialText, t.text = s) ∧
      ∀ t : PartialText, t.text = s →
        (∀ base, u.apply base = t.run base) ∧
          (∀ clauses : List ClauseText, clauses.Perm t.clauses →
            parsePartial (joinWith comma (clauses.map ClauseText.text)) = .ok u ∧
              (classify s = .ok .clauses →
                parse (joinWith comma (clauses.map ClauseText.text)) = .ok u)) ∧
          ∀ who, (∀ c ∈ t.clauses, ¬ c.Covers who) →
            ∀ base, u.apply base &&& who.scope = base &&& who.scope := by
  refine ⟨?_, ?_⟩
  · obtain ⟨t, ht, -⟩ := parsePartial_eq_ok_iff.1 h
    exact ⟨t, ht⟩
  rintro t rfl
  have hu : t.update = u := by
    rw [parsePartial_eq_ok_iff.2 ⟨t, rfl, rfl⟩] at h
    exact Except.ok.inj h
  have hrun : ∀ base, u.apply base = t.run base := by
    intro base
    rw [← hu, t.apply_update]
  refine ⟨hrun, ?_, ?_⟩
  · intro clauses hperm
    obtain ⟨t', rfl, hsame⟩ := t.exists_perm hperm
    rw [hu] at hsame
    refine ⟨parsePartial_eq_ok_iff.2 ⟨t', rfl, hsame⟩, fun hform => ?_⟩
    have hexact : ¬ ∃ e : ExactText, e.text = t.text := by
      rintro ⟨e, he⟩
      rw [← he, classify_exact] at hform
      cases hform
    have hread := parse_partialText t' (PartialText.not_exact_of_perm hperm hexact)
    rwa [hsame] at hread
  · intro who hwho base
    rw [hrun, t.run_and_scope hwho]

/-- The partial mode `u=rws,g-w`. -/
def sample : PartialText where
  clauses :=
    [⟨Ascii.bytes "u", .assign, Ascii.bytes "rws", forall_mem_of_all (by decide),
        forall_mem_of_all (by decide)⟩,
      ⟨Ascii.bytes "g", .remove, Ascii.bytes "w", forall_mem_of_all (by decide),
        forall_mem_of_all (by decide)⟩]
  ne_nil := by simp
  disjoint := by
    refine List.pairwise_pair.2 fun who => ?_
    cases who <;> decide

theorem parsePartial_sample :
    parsePartial (Ascii.bytes "u=rws,g-w") = .ok ⟨0o4600, 0o4720⟩ ∧
      parsePartial (Ascii.bytes "g-w,u=rws") = .ok ⟨0o4600, 0o4720⟩ ∧
        ∀ base, (Update.mk 0o4600 0o4720).apply base &&& Who.other.scope =
          base &&& Who.other.scope := by
  have htext : sample.text = Ascii.bytes "u=rws,g-w" := by decide
  have hread : parsePartial (Ascii.bytes "u=rws,g-w") = .ok ⟨0o4600, 0o4720⟩ :=
    parsePartial_eq_ok_iff.2 ⟨sample, htext, by decide⟩
  obtain ⟨-, hmeans⟩ := parsePartial_runs_clauses hread
  obtain ⟨-, hperm, hother⟩ := hmeans sample htext
  exact ⟨hread, (hperm sample.clauses.reverse (List.reverse_perm _)).1, hother .other (by decide)⟩

end CText.Mode
