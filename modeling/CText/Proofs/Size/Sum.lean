import CText.Proofs.Size.Summand

/-!
# Reading sums

The reader takes summands one after the other and keeps the sum, the number of summands and whether
one of them had no unit. On a text of the grammar these are what the text says, as long as the sum
fits the counter; and whatever is read to the end without an error is a text of the grammar. So the
texts of the grammar are the sizes, each is worth what its numbers say, and only a size of 64 bits
or more is refused, as out of range.
-/

namespace CText.Size

variable {marks : Marks} {base : Base} {s rest : List UInt8}

theorem isBetween_iff {c : UInt8} :
    isBetween marks c = true ↔ c ∈ marks.separators ∨ Ascii.isSpace c = true := by
  simp [isBetween]

theorem Number.head (n : Number marks) :
    ∃ c r, n.text = c :: r ∧ (Ascii.isDigit c = true ∨ c ∈ marks.decimalPoints) := by
  rcases n.whole_grouped with h | h
  · cases hpoint : n.point with
    | none => exact absurd (n.fraction_pointed hpoint) (n.some_digit.resolve_left (by simp [h]))
    | some p =>
      exact ⟨p, n.fraction, by simp [Number.text, h, hpoint], .inr (n.point_mark p hpoint)⟩
  · obtain ⟨d, r, hwhole, hd⟩ := h.head
    exact ⟨d, r ++ (n.point.toList ++ n.fraction), by simp [Number.text, hwhole], .inl hd⟩

theorem Summand.head (t : Summand marks) :
    ∃ c r, t.text = c :: r ∧ (Ascii.isDigit c = true ∨ c ∈ marks.decimalPoints) := by
  cases t with
  | bare n => exact n.head
  | measured n blank u hblank =>
    obtain ⟨c, r, hn, hc⟩ := n.head
    exact ⟨c, r ++ (blank ++ u.text), by simp [Summand.text, hn], hc⟩

theorem Summands.head (t : Summands marks) :
    ∃ c r, t.text = c :: r ∧ (Ascii.isDigit c = true ∨ c ∈ marks.decimalPoints) := by
  cases t with
  | last t trail htrail =>
    obtain ⟨c, r, ht, hc⟩ := t.head
    exact ⟨c, r ++ trail, by simp [Summands.text, ht], hc⟩
  | join t between others hne hbetween =>
    obtain ⟨c, r, ht, hc⟩ := t.head
    exact ⟨c, r ++ (between ++ others.text), by simp [Summands.text, ht], hc⟩

/-- The first byte of a number does not stand between summands, and no unit begins with it. -/
theorem Marks.Distinct.starts_number (hm : marks.Distinct) {c : UInt8}
    (hc : Ascii.isDigit c = true ∨ c ∈ marks.decimalPoints) :
    isBetween marks c = false ∧ Ascii.isSpace c = false ∧ c ∉ unitBytes := by
  have hdigit : ∀ c : UInt8, Ascii.isDigit c = true → Ascii.isSpace c = false ∧ c ∉ unitBytes :=
    byte_induction (by decide)
  have hspace : Ascii.isSpace c = false ∧ c ∉ unitBytes := by
    rcases hc with hc | hc
    · exact hdigit c hc
    · have hall : c ∈ marks.all := by simp [Marks.all, hc]
      exact ⟨hm.not_space c hall, hm.not_unit c hall⟩
  have hseparator : c ∉ marks.separators := by
    intro hsep
    rcases hc with hc | hc
    · simp [hm.not_digit c (by simp [Marks.all, hsep])] at hc
    · exact hm.points_separators c hc hsep
  refine ⟨?_, hspace⟩
  rw [← Bool.not_eq_true, isBetween_iff]
  simp [hseparator, hspace.1]

theorem follows_trail {trail : List UInt8} (htrail : ∀ c ∈ trail, Ascii.isSpace c = true) :
    Follows marks trail where
  head c hc := .inr (htrail c (List.mem_of_mem_head? hc))
  no_unit c hc := by
    rw [List.dropWhile_eq_nil_iff.2 htrail] at hc
    cases hc

theorem follows_join (hm : marks.Distinct) {between : List UInt8} (hne : between ≠ [])
    (hbetween : ∀ c ∈ between, c ∈ marks.separators ∨ Ascii.isSpace c = true)
    (others : Summands marks) : Follows marks (between ++ others.text) := by
  obtain ⟨first, r, htext, hfirst⟩ := others.head
  obtain ⟨-, hspace, hunit⟩ := hm.starts_number hfirst
  constructor
  · intro c hc
    obtain ⟨b, rest, rfl⟩ := List.exists_cons_of_ne_nil hne
    cases hc
    exact hbetween _ List.mem_cons_self
  · intro c hc
    have hnot : c ∈ between ∨ c = first → c ∉ unitBytes := by
      rintro (hc | rfl)
      · exact hm.between_not_unit (hbetween c hc)
      · exact hunit
    rw [List.dropWhile_append, htext, List.dropWhile_cons_of_neg (by simp [hspace])] at hc
    split at hc
    · cases hc
      exact hnot (.inr rfl)
    · rcases mem_head?_append hc with hc | hc
      · exact hnot (.inl ((List.dropWhile_sublist _).subset hc))
      · cases hc
        exact hnot (.inr rfl)

/-! ## The run over the summands -/

theorem readTerms_eq (size : Nat) (sum : Sum) (s : List UInt8) :
    readTerms marks base size sum s =
      readTerm marks base s (size - s.length) >>= fun term =>
        counted (sum.total + term.value) >>= fun total =>
          if (term.rest.dropWhile (isBetween marks)).isEmpty then
            if (term.rest.takeWhile (isBetween marks)).any fun c => marks.separators.contains c then
              .error (.invalidFormat .danglingSeparator (size - term.rest.length))
            else .ok ⟨total, sum.terms + 1, sum.unitless || !term.hasUnit⟩
          else if (term.rest.takeWhile (isBetween marks)).isEmpty then
            .error (.invalidFormat .unjoinedTerms
              (size - (term.rest.dropWhile (isBetween marks)).length))
          else readTerms marks base size ⟨total, sum.terms + 1, sum.unitless || !term.hasUnit⟩
            (term.rest.dropWhile (isBetween marks)) := by
  rw [readTerms]
  split
  · rename_i e h
    rw [h]
    rfl
  · rename_i term h
    rw [h]
    change _ = counted (sum.total + term.value) >>= _
    cases counted (sum.total + term.value) <;> rfl

theorem map_bind {α β γ : Type} (x : Except Error α) (f : α → β) (g : β → Except Error γ) :
    x.map f >>= g = x >>= fun a => g (f a) := by
  cases x <;> rfl

/-- Reading summands adds what they are worth, counts them and notes a missing unit. -/
theorem readTerms_summands (hm : marks.Distinct) (t : Summands marks) (size : Nat) (sum : Sum) :
    readTerms marks base size sum t.text =
      (counted (sum.total + t.value base)).map fun total =>
        ⟨total, sum.terms + t.toList.length, sum.unitless || t.toList.any fun u => !u.hasUnit⟩ := by
  induction t generalizing sum with
  | last u trail htrail =>
    have hbetween : ∀ c ∈ trail, isBetween marks c = true := fun c hc =>
      isBetween_iff.2 (.inr (htrail c hc))
    have hseparator : (trail.any fun c => marks.separators.contains c) = false := by
      simp only [List.any_eq_false, List.contains_iff_mem]
      intro c hc hsep
      have hspace := hm.not_space c (by simp [Marks.all, hsep])
      simp [htrail c hc] at hspace
    have hvalue : (Summands.last u trail htrail).value base = u.value base := by
      simp [Summands.value, Summands.toList]
    rw [Summands.text, readTerms_eq, readTerm_summand hm u (follows_trail htrail), map_bind, hvalue]
    refine counted_bind_eq (Nat.le_add_left _ _) fun _ => ?_
    simp only [List.dropWhile_eq_nil_iff.2 hbetween, List.takeWhile_eq_self_iff.2 hbetween,
      hseparator]
    cases counted (sum.total + u.value base) with
    | error e => rfl
    | ok total => simp [Summands.toList, Except.map, bind, Except.bind]
  | join u between others hne hbetween ih =>
    obtain ⟨first, r, htext, hfirst⟩ := others.head
    have hstop := (hm.starts_number hfirst).1
    have hall : ∀ c ∈ between, isBetween marks c = true := fun c hc =>
      isBetween_iff.2 (hbetween c hc)
    have htake : (between ++ others.text).takeWhile (isBetween marks) = between := by
      simp [List.takeWhile_append_of_pos hall, htext, hstop]
    have hdrop : (between ++ others.text).dropWhile (isBetween marks) = others.text := by
      simp [List.dropWhile_append_of_pos hall, htext, hstop]
    have hvalue : (Summands.join u between others hne hbetween).value base =
        u.value base + others.value base := by
      simp [Summands.value, Summands.toList]
    rw [Summands.text, readTerms_eq, readTerm_summand hm u (follows_join hm hne hbetween others),
      map_bind, hvalue]
    refine counted_bind_eq (by omega) fun _ => ?_
    refine counted_bind_eq (by dsimp only; omega) fun _ => ?_
    have hmore : others.text.isEmpty = false := by rw [htext]; rfl
    have hjoined : between.isEmpty = false := by simpa using hne
    have hterms : sum.terms + 1 + others.toList.length =
        sum.terms + (others.toList.length + 1) := by
      omega
    simp only [htake, hdrop, hmore, hjoined, ih, Summands.toList, List.length_cons, List.any_cons,
      hterms, Nat.add_assoc, Bool.or_assoc]
    rfl

/-- What is read to the end is summands, as many and with as many units as were counted. -/
theorem exists_of_readTerms {size : Nat} {sum found : Sum}
    (h : readTerms marks base size sum s = .ok found) :
    ∃ t : Summands marks, t.text = s ∧ found.terms = sum.terms + t.toList.length ∧
      found.unitless = (sum.unitless || t.toList.any fun u => !u.hasUnit) := by
  fun_induction readTerms marks base size sum s with
  | case1 => cases h
  | case2 => cases h
  | case3 => cases h
  | case4 sum s term hterm total htotal sum' between rest hrest hseparator =>
    obtain ⟨u, htext, hunit⟩ := exists_of_readTerm hterm
    have hparts : between ++ rest = term.rest := List.takeWhile_append_dropWhile
    have htrail : ∀ c ∈ term.rest, Ascii.isSpace c = true := by
      intro c hc
      rw [← hparts, List.isEmpty_iff.1 hrest, List.append_nil] at hc
      have hnot : c ∉ marks.separators := by
        intro hsep
        exact hseparator (List.any_eq_true.2 ⟨c, hc, by simpa using hsep⟩)
      exact (isBetween_iff.1 (List.mem_takeWhile_imp hc)).resolve_left hnot
    obtain rfl := Except.ok.inj h
    exact ⟨.last u term.rest htrail, htext.symm, rfl, by simp [sum', Summands.toList, hunit]⟩
  | case5 => cases h
  | case6 sum s term hterm total htotal sum' between rest hrest hjoined ih =>
    obtain ⟨u, htext, hunit⟩ := exists_of_readTerm hterm
    obtain ⟨others, hothers, hterms, hunitless⟩ := ih h
    have hparts : between ++ rest = term.rest := List.takeWhile_append_dropWhile
    have hbetween : ∀ c ∈ between, c ∈ marks.separators ∨ Ascii.isSpace c = true := fun c hc =>
      isBetween_iff.1 (List.mem_takeWhile_imp hc)
    have hne : between ≠ [] := fun hnil => hjoined (by rw [hnil]; rfl)
    refine ⟨.join u between others hne hbetween, ?_, ?_, ?_⟩
    · rw [Summands.text, hothers, hparts, ← htext]
    · rw [hterms, Summands.toList, List.length_cons]
      simp only [sum']
      omega
    · rw [hunitless, Summands.toList, List.any_cons, ← hunit, ← Bool.or_assoc]

/-! ## Whole texts -/

/-- A size of the grammar is read as what it is worth, if that fits the counter and then the
size. -/
theorem parseWith_text (hm : marks.Distinct) (t : SizeText marks) :
    parseWith marks base t.text =
      counted (t.value base) >>= fun total =>
        if total < sizeLimit then .ok total else .error .outOfRange := by
  obtain ⟨first, r, htext, hfirst⟩ := t.summands.head
  have hstart : t.text.dropWhile Ascii.isSpace = t.summands.text := by
    rw [SizeText.text, List.dropWhile_append_of_pos t.lead_space, htext,
      List.dropWhile_cons_of_neg (by simp [(hm.starts_number hfirst).2.1])]
  have hmore : t.summands.text.isEmpty = false := by rw [htext]; rfl
  have hunits : ¬ ((t.summands.toList.any fun u => !u.hasUnit) = true ∧
      1 < t.summands.toList.length) := by
    rintro ⟨hany, hmany⟩
    obtain ⟨u, hu, hunit⟩ := List.any_eq_true.1 hany
    simp [t.unit_unless_alone hmany u hu] at hunit
  have hrun : readTerms marks base t.text.length ⟨0, 0, false⟩ t.summands.text =
      (counted (t.value base)).map fun total =>
        ⟨total, t.summands.toList.length, t.summands.toList.any fun u => !u.hasUnit⟩ := by
    simpa [SizeText.value] using readTerms_summands hm t.summands t.text.length ⟨0, 0, false⟩
  simp only [parseWith, hstart, hmore, hrun]
  cases counted (t.value base) with
  | error e => rfl
  | ok total =>
    simp only [Except.map, if_neg hunits]
    rfl

/-- The counter refuses nothing that a size could hold. -/
theorem counted_bind_size (n : Nat) :
    (counted n >>= fun total => if total < sizeLimit then .ok total else .error .outOfRange) =
      (if n < 2 ^ 64 then .ok n else .error .outOfRange : Except Error Nat) := by
  have hsize : sizeLimit = 2 ^ 64 := by
    unfold sizeLimit
    rfl
  have hcounter : sizeLimit ≤ counterLimit := by
    unfold sizeLimit counterLimit
    exact Nat.pow_le_pow_right (by decide) (by decide)
  rw [← hsize]
  by_cases h : n < counterLimit
  · rw [counted_of_lt h]
    rfl
  · rw [counted_of_le (Nat.not_lt.1 h), if_neg (by omega)]
    rfl

/-- What is read without an error is a size. -/
theorem isSize_of_parseWith {n : Nat} (h : parseWith marks base s = .ok n) : IsSize marks s := by
  unfold parseWith at h
  dsimp only at h
  split at h
  · cases h
  split at h
  · cases h
  rename_i sum hsum
  split at h
  · cases h
  rename_i hunits
  obtain ⟨t, htext, hterms, hunitless⟩ := exists_of_readTerms hsum
  refine ⟨⟨s.takeWhile Ascii.isSpace, t, fun c hc => List.mem_takeWhile_imp hc, ?_⟩, ?_⟩
  · intro hmany u hu
    by_contra hunit
    refine hunits ⟨?_, by omega⟩
    rw [hunitless, Bool.false_or, List.any_eq_true]
    exact ⟨u, hu, by simpa using hunit⟩
  · rw [SizeText.text, htext, List.takeWhile_append_dropWhile]

theorem standard_distinct : Marks.standard.Distinct where
  points_grouping := forall_mem_of_all (by decide)
  points_separators := forall_mem_of_all (by decide)
  grouping_separators := forall_mem_of_all (by decide)
  not_digit := forall_mem_of_all (by decide)
  not_space := forall_mem_of_all (by decide)
  not_unit := forall_mem_of_all (by decide)

/-- The size `1_000.5K + 2 Ki`. -/
def sample : SizeText Marks.standard where
  lead := []
  summands :=
    .join
      (.measured
        { whole := Ascii.bytes "1_000", point := some (Ascii.byte '.'), fraction := Ascii.bytes "5"
          whole_grouped := .inr (.group rfl (by decide) (.next rfl (.next rfl (.digit rfl))))
          point_mark := fun | _, rfl => by decide
          fraction_digits := forall_mem_of_all (by decide)
          fraction_pointed := by decide
          some_digit := by decide }
        [] (.scaled (Ascii.byte 'K') 1 none none (by decide) (by simp) (by simp)) (by simp))
      (Ascii.bytes " + ")
      (.last
        (.measured
          { whole := Ascii.bytes "2", point := none, fraction := []
            whole_grouped := .inr (.digit rfl)
            point_mark := by simp
            fraction_digits := by simp
            fraction_pointed := by decide
            some_digit := by decide }
          [Ascii.byte ' ']
          (.scaled (Ascii.byte 'K') 1 (some (Ascii.byte 'i')) none (by decide)
            (fun | _, rfl => by decide) (by simp))
          (forall_mem_of_all (by decide)))
        [] (by simp))
      (by decide) (forall_mem_of_all (by decide))
  lead_space := by simp
  unit_unless_alone := by decide

theorem sample_value : sample.value .decimal = 1002548 := by
  simp only [sample, SizeText.value, Summands.value, Summands.toList, Summand.value, List.map_cons,
    List.map_nil, Number.floor_value_mul]
  decide

/-- Reading accepts the texts of the grammar that are worth less than `2 ^ 64` bytes and nothing
else, and no text of the grammar is malformed to it. -/
theorem parseWith_accepts_grammar (hm : marks.Distinct) (base : Base) (s : List UInt8) :
    ((∃ n, parseWith marks base s = .ok n) ↔
        ∃ t : SizeText marks, t.text = s ∧ t.value base < 2 ^ 64) ∧
      (IsSize marks s →
        ∀ what offset, parseWith marks base s ≠ .error (.invalidFormat what offset)) := by
  refine ⟨⟨?_, ?_⟩, ?_⟩
  · rintro ⟨n, hn⟩
    obtain ⟨t, rfl⟩ := isSize_of_parseWith hn
    refine ⟨t, rfl, ?_⟩
    by_contra hlarge
    rw [parseWith_text hm, counted_bind_size, if_neg hlarge] at hn
    cases hn
  · rintro ⟨t, rfl, hsmall⟩
    exact ⟨t.value base, by rw [parseWith_text hm, counted_bind_size, if_pos hsmall]⟩
  · rintro ⟨t, rfl⟩ what offset h
    rw [parseWith_text hm, counted_bind_size] at h
    split at h <;> cases h

theorem parseWith_accepts_sample :
    Marks.standard.Distinct ∧
      ∃ n, parseWith .standard .decimal (Ascii.bytes "1_000.5K + 2 Ki") = .ok n := by
  have hsample : ∃ t : SizeText Marks.standard,
      t.text = Ascii.bytes "1_000.5K + 2 Ki" ∧ t.value .decimal < 2 ^ 64 :=
    ⟨sample, by decide, by rw [sample_value]; decide⟩
  exact ⟨standard_distinct, (parseWith_accepts_grammar standard_distinct .decimal _).1.2 hsample⟩

/-- A size is read as exactly what it is worth, or it is out of range. -/
theorem parseWith_eq_value (hm : marks.Distinct) (base : Base) (t : SizeText marks) :
    parseWith marks base t.text =
      if t.value base < 2 ^ 64 then .ok (t.value base) else .error .outOfRange := by
  rw [parseWith_text hm, counted_bind_size]

theorem parseWith_sample :
    Marks.standard.Distinct ∧
      parseWith .standard .decimal (Ascii.bytes "1_000.5K + 2 Ki") = .ok 1002548 := by
  have htext : sample.text = Ascii.bytes "1_000.5K + 2 Ki" := by decide
  have hvalue := parseWith_eq_value standard_distinct .decimal sample
  rw [sample_value, if_pos (by decide), htext] at hvalue
  exact ⟨standard_distinct, hvalue⟩

end CText.Size
