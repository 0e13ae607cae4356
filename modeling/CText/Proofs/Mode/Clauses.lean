import CText.Proofs.Fields
import CText.Proofs.Mode.Notation
import CText.Unit

/-!
# Reading partial modes

The reader of a clause takes class letters, an operator and permission letters, and stops at a comma
or at the end. It keeps the classes as a set and compares it with the classes of the clauses before.
So it takes exactly the clauses of the notation, and what it keeps of each says what the clause is
about.
-/

namespace CText.Mode

variable {s t rest : List UInt8} {touched : List Who} {offset : Nat}

/-! ## Classes -/

/-- The classes that class letters stand for, in the order of the letters. -/
def classesOf (s : List UInt8) : List Who := s.flatMap fun b => (whoOfByte? b).getD []

theorem classesOf_cons (b : UInt8) (s : List UInt8) :
    classesOf (b :: s) = (whoOfByte? b).getD [] ++ classesOf s :=
  List.flatMap_cons

theorem whoOfByte?_isSome {b : UInt8} : (whoOfByte? b).isSome = true ↔ b ∈ Ascii.bytes "ugoa" := by
  have hall : ∀ b : UInt8, (whoOfByte? b).isSome = true ↔ b ∈ Ascii.bytes "ugoa" :=
    byte_induction (by decide)
  exact hall b

theorem mem_classesOf {who : Who} : who ∈ classesOf s ↔ who.letter ∈ s ∨ Ascii.byte 'a' ∈ s := by
  have hall : ∀ b : UInt8, ∀ w ∈ Who.all,
      (w ∈ (whoOfByte? b).getD [] ↔ b = w.letter ∨ b = Ascii.byte 'a') :=
    byte_induction (by decide)
  have hwho : who ∈ Who.all := by cases who <;> decide
  simp only [classesOf, List.mem_flatMap, hall _ who hwho]
  constructor
  · rintro ⟨b, hb, rfl | rfl⟩
    · exact .inl hb
    · exact .inr hb
  · rintro (h | h)
    · exact ⟨_, h, .inl rfl⟩
    · exact ⟨_, h, .inr rfl⟩

theorem classesOf_eq_nil (hs : ∀ b ∈ s, b ∈ Ascii.bytes "ugoa") : classesOf s = [] ↔ s = [] := by
  have hall : ∀ b ∈ Ascii.bytes "ugoa", (whoOfByte? b).getD [] ≠ [] :=
    forall_mem_of_all (by decide)
  constructor
  · intro h
    cases s with
    | nil => rfl
    | cons b r =>
      rw [classesOf_cons, List.append_eq_nil_iff] at h
      exact absurd h.1 (hall b (hs b List.mem_cons_self))
  · rintro rfl
    rfl

theorem readWho_append (hs : ∀ b ∈ s, b ∈ Ascii.bytes "ugoa")
    (hrest : ∀ b ∈ rest.head?, b ∉ Ascii.bytes "ugoa") :
    readWho (s ++ rest) = (classesOf s, rest) := by
  induction s with
  | nil =>
    cases rest with
    | nil => rfl
    | cons b r =>
      have hnone : whoOfByte? b = none := by
        rw [← Option.not_isSome_iff_eq_none, whoOfByte?_isSome]
        exact hrest b rfl
      rw [List.nil_append, readWho, hnone]
      rfl
  | cons b r ih =>
    obtain ⟨who, hwho⟩ := Option.isSome_iff_exists.1
      (whoOfByte?_isSome.2 (hs b List.mem_cons_self))
    rw [List.cons_append, readWho, hwho, ih fun c hc => hs c (List.mem_cons_of_mem _ hc),
      classesOf_cons, hwho]
    rfl

theorem exists_of_readWho (s : List UInt8) :
    ∃ t, s = t ++ (readWho s).2 ∧ (readWho s).1 = classesOf t ∧
      ∀ b ∈ t, b ∈ Ascii.bytes "ugoa" := by
  fun_induction readWho s with
  | case1 => exact ⟨[], rfl, rfl, by simp⟩
  | case2 b r who hwho others rest hread ih =>
    obtain ⟨t, hr, hclasses, ht⟩ := ih
    refine ⟨b :: t, by rw [hr, hread]; rfl, ?_, ?_⟩
    · rw [classesOf_cons, hwho, ← hclasses, hread]
      rfl
    · intro c hc
      rcases List.mem_cons.1 hc with rfl | hc
      · exact whoOfByte?_isSome.1 (by rw [hwho]; rfl)
      · exact ht c hc
  | case3 b r hwho => exact ⟨[], rfl, rfl, by simp⟩

/-- The set that the reader keeps is the classes that the clause is about. -/
theorem ClauseText.whoSet_classesOf (c : ClauseText) : whoSet (classesOf c.who) = c.classes := by
  by_cases hwho : c.who = []
  · have hclasses : classesOf c.who = [] := (classesOf_eq_nil c.who_mem).2 hwho
    have hcovers : ∀ who, c.Covers who := fun _ => .inl hwho
    rw [whoSet, hclasses, ClauseText.classes]
    exact (List.filter_eq_self.2 fun who _ => decide_eq_true (hcovers who)).symm
  · have hclasses : (classesOf c.who).isEmpty = false := by
      rw [List.isEmpty_eq_false_iff, Ne, classesOf_eq_nil c.who_mem]
      exact hwho
    rw [whoSet, hclasses, ClauseText.classes]
    simp [ClauseText.Covers, hwho, mem_classesOf]

theorem ClauseText.mem_classes {c : ClauseText} {who : Who} : who ∈ c.classes ↔ c.Covers who := by
  have hwho : who ∈ Who.all := by cases who <;> decide
  simp [ClauseText.classes, hwho]

/-! ## Operators and permission letters -/

theorem ofByte?_byte (op : Operator) : Operator.ofByte? op.byte = some op := by
  cases op <;> decide

theorem byte_of_ofByte? {b : UInt8} {op : Operator} (h : Operator.ofByte? b = some op) :
    b = op.byte := by
  have hall : ∀ b : UInt8, ∀ op ∈ Operator.ofByte? b, b = op.byte :=
    byte_induction (by decide)
  exact hall b op h

theorem letterBits_isSome {b : UInt8} :
    (letterBits b .owner).isSome = true ↔ b ∈ Ascii.bytes "rwxst" := by
  have hall : ∀ b : UInt8, (letterBits b .owner).isSome = true ↔ b ∈ Ascii.bytes "rwxst" :=
    byte_induction (by decide)
  exact hall b

theorem readPermissions_append (hs : ∀ b ∈ s, b ∈ Ascii.bytes "rwxst")
    (hrest : ∀ b ∈ rest.head?, b = comma) (offset : Nat) :
    readPermissions (s ++ rest) offset = .ok (s, rest) := by
  induction s generalizing offset with
  | nil =>
    cases rest with
    | nil => rfl
    | cons b r =>
      rw [List.nil_append, readPermissions, if_pos (hrest b rfl)]
  | cons b r ih =>
    have hb : b ∈ Ascii.bytes "rwxst" := hs b List.mem_cons_self
    have hcomma : b ≠ comma := by
      rintro rfl
      exact absurd hb (by decide)
    rw [List.cons_append, readPermissions, if_neg hcomma, if_pos (letterBits_isSome.2 hb),
      ih fun c hc => hs c (List.mem_cons_of_mem _ hc)]
    rfl

theorem of_readPermissions (h : readPermissions s offset = .ok (t, rest)) :
    s = t ++ rest ∧ (∀ b ∈ t, b ∈ Ascii.bytes "rwxst") ∧ ∀ b ∈ rest.head?, b = comma := by
  fun_induction readPermissions s offset generalizing t rest with
  | case1 =>
    cases h
    exact ⟨rfl, by simp, by simp⟩
  | case2 r =>
    cases h
    exact ⟨rfl, by simp, by simp⟩
  | case3 b r offset hcomma hletter ih =>
    obtain ⟨found, hread, hfound⟩ := exists_of_map_eq_ok h
    cases hfound
    obtain ⟨hr, hletters, hrest⟩ := ih hread
    refine ⟨by rw [hr]; rfl, ?_, hrest⟩
    intro c hc
    rcases List.mem_cons.1 hc with rfl | hc
    · exact letterBits_isSome.1 hletter
    · exact hletters c hc
  | case4 => cases h

/-! ## Clauses -/

/-- What the reader keeps of a clause. -/
def ClauseText.clause (c : ClauseText) : Clause := ⟨c.classes, c.operator, c.letters⟩

theorem Operator.byte_notMem (op : Operator) : op.byte ∉ Ascii.bytes "ugoa" ∧ op.byte ≠ comma := by
  cases op <;> decide

theorem ClauseText.head (c : ClauseText) : ∃ b r, c.text = b :: r ∧ b ≠ comma ∧
    b ∈ partialStart := by
  cases hwho : c.who with
  | nil =>
    refine ⟨c.operator.byte, c.letters, by simp [ClauseText.text, hwho], ?_, ?_⟩
    · exact c.operator.byte_notMem.2
    cases c.operator <;> decide
  | cons b r =>
    have hall : ∀ b ∈ Ascii.bytes "ugoa", b ≠ comma ∧ b ∈ partialStart :=
      forall_mem_of_all (by decide)
    have hb := hall b (c.who_mem b (by simp [hwho]))
    exact ⟨b, r ++ c.operator.byte :: c.letters, by simp [ClauseText.text, hwho], hb.1, hb.2⟩

/-- A clause of the notation is read whole if its classes are new. -/
theorem readClause_text (c : ClauseText) (hnew : ∀ who ∈ touched, ¬ c.Covers who)
    (hrest : ∀ b ∈ rest.head?, b = comma) (offset : Nat) :
    readClause touched (c.text ++ rest) offset = .ok (c.clause, rest) := by
  obtain ⟨b, r, htext, hb, -⟩ := c.head
  have hhead : (c.text ++ rest).head? ≠ some comma := by
    rw [htext]
    simpa using hb
  have hstop : ∀ b ∈ (c.operator.byte :: (c.letters ++ rest)).head?, b ∉ Ascii.bytes "ugoa" := by
    intro b hb
    cases hb
    exact c.operator.byte_notMem.1
  have hwho : readWho (c.text ++ rest) =
      (classesOf c.who, c.operator.byte :: (c.letters ++ rest)) := by
    rw [ClauseText.text, List.append_assoc]
    exact readWho_append c.who_mem hstop
  have hfresh : (c.classes.any fun w => touched.contains w) = false := by
    simp only [List.any_eq_false, List.contains_iff_mem]
    exact fun w hw ht => hnew w ht (ClauseText.mem_classes.1 hw)
  simp only [readClause, if_neg hhead, hwho, c.whoSet_classesOf, hfresh, ofByte?_byte,
    readPermissions_append c.letters_mem hrest]
  rfl

/-- What is read as a clause is one, and its classes are new. -/
theorem exists_of_readClause {clause : Clause}
    (h : readClause touched s offset = .ok (clause, rest)) :
    ∃ c : ClauseText, s = c.text ++ rest ∧ clause = c.clause ∧
      (∀ who ∈ touched, ¬ c.Covers who) ∧ ∀ b ∈ rest.head?, b = comma := by
  unfold readClause at h
  split at h
  · cases h
  obtain ⟨who, hs, hclasses, hwho⟩ := exists_of_readWho s
  dsimp only at h
  split at h
  · cases h
  rename_i hfresh
  split at h
  · cases h
  rename_i b afterOperator hafter
  split at h
  · cases h
  rename_i op hop
  obtain ⟨⟨letters, after⟩, hread, hfound⟩ := exists_of_map_eq_ok h
  cases hfound
  obtain ⟨hletters, hmem, hrest⟩ := of_readPermissions hread
  let c : ClauseText := ⟨who, op, letters, hwho, hmem⟩
  have hset : whoSet (readWho s).1 = c.classes := by rw [hclasses, ← c.whoSet_classesOf]
  refine ⟨c, ?_, ?_, ?_, hrest⟩
  · rw [hs, hafter, hletters, byte_of_ofByte? hop, ClauseText.text, List.append_assoc]
    rfl
  · rw [hset]
    rfl
  · intro w hw hcovers
    rw [hset] at hfresh
    exact hfresh (List.any_eq_true.2 ⟨w, ClauseText.mem_classes.2 hcovers, by simpa using hw⟩)

/-! ## The run over the clauses -/

theorem readClauses_eq (touched : List Who) (s : List UInt8) (offset : Nat) :
    readClauses touched s offset =
      readClause touched s offset >>= fun found =>
        match found.2 with
        | [] => .ok [found.1]
        | _ :: rest =>
          if rest.isEmpty then
            .error (.invalidFormat .emptyClause (offset + (s.length - rest.length)))
          else (readClauses (touched ++ found.1.who) rest
            (offset + (s.length - rest.length))).map (found.1 :: ·) := by
  rw [readClauses]
  split
  · rename_i e h
    rw [h]
    rfl
  · rename_i clause h
    rw [h]
    rfl
  · rename_i clause b rest h
    rw [h]
    rfl

theorem nil_notMem_map_text (clauses : List ClauseText) : [] ∉ clauses.map ClauseText.text := by
  intro h
  obtain ⟨c, -, hc⟩ := List.mem_map.1 h
  obtain ⟨b, r, htext, -⟩ := c.head
  rw [htext] at hc
  cases hc

/-- Clauses of the notation are read one by one if no two of them change a class. -/
theorem readClauses_text {clauses : List ClauseText} (hne : clauses ≠ [])
    (hdisjoint : clauses.Pairwise ClauseText.Disjoint)
    (hnew : ∀ c ∈ clauses, ∀ who ∈ touched, ¬ c.Covers who) (offset : Nat) :
    readClauses touched (joinWith comma (clauses.map ClauseText.text)) offset =
      .ok (clauses.map ClauseText.clause) := by
  induction clauses generalizing touched offset with
  | nil => exact absurd rfl hne
  | cons c others ih =>
    have hc : ∀ who ∈ touched, ¬ c.Covers who := hnew c List.mem_cons_self
    by_cases hothers : others = []
    · subst hothers
      have hread : readClause touched (c.text ++ []) offset = .ok (c.clause, []) :=
        readClause_text c hc (by simp) offset
      rw [List.append_nil] at hread
      rw [readClauses_eq]
      change readClause touched c.text offset >>= _ = _
      rw [hread]
      rfl
    · let rest := joinWith comma (others.map ClauseText.text)
      have htext : joinWith comma ((c :: others).map ClauseText.text) = c.text ++ comma :: rest :=
        joinWith_cons_of_ne_nil (by simpa using hothers) _
      have hmore : rest.isEmpty = false := by
        rw [List.isEmpty_eq_false_iff, Ne, joinWith_eq_nil_iff (nil_notMem_map_text others)]
        simpa using hothers
      have hread : readClause touched (c.text ++ comma :: rest) offset =
          .ok (c.clause, comma :: rest) :=
        readClause_text c hc (by simp) offset
      rw [List.pairwise_cons] at hdisjoint
      have hothersNew : ∀ d ∈ others, ∀ who ∈ touched ++ c.classes, ¬ d.Covers who := by
        intro d hd who hwho hcovers
        rcases List.mem_append.1 hwho with hwho | hwho
        · exact hnew d (List.mem_cons_of_mem _ hd) who hwho hcovers
        · exact hdisjoint.1 d hd who ⟨ClauseText.mem_classes.1 hwho, hcovers⟩
      rw [htext, readClauses_eq, hread]
      change (if rest.isEmpty then _ else
        Except.map _ (readClauses (touched ++ c.classes) rest _)) = _
      rw [hmore, ih hothers hdisjoint.2 hothersNew]
      rfl

/-- Clauses that are read are clauses of the notation, and no two of them change a class. -/
theorem exists_of_readClauses {found : List Clause} (h : readClauses touched s offset = .ok found) :
    ∃ clauses : List ClauseText, clauses ≠ [] ∧
      joinWith comma (clauses.map ClauseText.text) = s ∧ found = clauses.map ClauseText.clause ∧
      clauses.Pairwise ClauseText.Disjoint ∧
      ∀ c ∈ clauses, ∀ who ∈ touched, ¬ c.Covers who := by
  fun_induction readClauses touched s offset generalizing found with
  | case1 => cases h
  | case2 touched s offset clause hread =>
    obtain ⟨c, hs, rfl, hnew, -⟩ := exists_of_readClause hread
    rw [List.append_nil] at hs
    cases h
    refine ⟨[c], by simp, hs.symm, rfl, List.pairwise_singleton _ _, ?_⟩
    intro d hd
    rw [List.mem_singleton.1 hd]
    exact hnew
  | case3 => cases h
  | case4 touched s offset clause b rest hread next hmore =>
    rename_i ih
    obtain ⟨c, hs, rfl, hnew, hcomma⟩ := exists_of_readClause hread
    obtain ⟨others, hrest, hfound⟩ := exists_of_map_eq_ok h
    cases hfound
    obtain ⟨clauses, hne, hjoin, rfl, hdisjoint, hothers⟩ := ih hrest
    refine ⟨c :: clauses, by simp, ?_, rfl, ?_, ?_⟩
    · rw [List.map_cons, joinWith_cons_of_ne_nil (by simpa using hne), hjoin, hs, hcomma b rfl]
    · refine List.pairwise_cons.2 ⟨fun d hd who hboth => ?_, hdisjoint⟩
      have hwho : who ∈ touched ++ c.clause.who :=
        List.mem_append_right _ (ClauseText.mem_classes.2 hboth.1)
      exact hothers d hd who hwho hboth.2
    · intro d hd who hwho
      rcases List.mem_cons.1 hd with rfl | hd
      · exact hnew who hwho
      · exact hothers d hd who (List.mem_append_left _ hwho)

/-- The update that a partial mode is read as. -/
def PartialText.update (t : PartialText) : Update :=
  (t.clauses.map ClauseText.clause).foldl (fun u clause => u.merge clause.update) .none

/-- Reading a partial mode accepts the texts of the notation and nothing else. -/
theorem parsePartial_eq_ok_iff {u : Update} :
    parsePartial s = .ok u ↔ ∃ t : PartialText, t.text = s ∧ t.update = u := by
  constructor
  · intro h
    obtain ⟨found, hread, hfound⟩ := exists_of_map_eq_ok h
    obtain ⟨clauses, hne, hjoin, rfl, hdisjoint, -⟩ := exists_of_readClauses hread
    exact ⟨⟨clauses, hne, hdisjoint⟩, hjoin, hfound⟩
  · rintro ⟨t, rfl, rfl⟩
    rw [parsePartial, PartialText.text, readClauses_text t.ne_nil t.disjoint (by simp)]
    rfl

end CText.Mode
