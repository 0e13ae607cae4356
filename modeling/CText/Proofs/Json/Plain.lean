import CText.Proofs.Json.Spelling

/-!
# Values that are read back

A value without floating numbers, with whole numbers of 64 bits and with the members of each object
sorted by key is read back from what is written for it, unless it lies deeper than reading goes. The
members of an object that is not sorted are found under their keys after reading all the same.
-/

namespace CText.Json

mutual

def document : Json → Document
  | .null => .null
  | .bool b => .bool b
  | .number n => .number (some n)
  | .text s => .text (some s)
  | .list items => .list (documents items) .closed
  | .object members => .object (memberDocuments members) .closed

def documents : List Json → List Document
  | [] => []
  | item :: rest => document item :: documents rest

def memberDocuments : List (String × Json) → List (Option String × Document)
  | [] => []
  | (key, value) :: rest => (some key, document value) :: memberDocuments rest

end

/-- A value that can be read back, with lists and objects at most `depth` deep. -/
inductive Plain : (depth : Nat) → Json → Prop
  | null {depth : Nat} : Plain depth .null
  | bool {depth : Nat} (b : Bool) : Plain depth (.bool b)
  | whole {depth : Nat} {n : Int} (range : InWord n) : Plain depth (.number (.whole n))
  | text {depth : Nat} (s : String) : Plain depth (.text s)
  | list {depth : Nat} {items : List Json} (plain : ∀ item ∈ items, Plain depth item) :
      Plain (depth + 1) (.list items)
  | object {depth : Nat} {members : List (String × Json)}
      (plain : ∀ member ∈ members, Plain depth member.2)
      (sorted : members.Pairwise (·.1 < ·.1)) : Plain (depth + 1) (.object members)

/-! ## Writing -/

theorem SpellsAmid.of_spells {d : Document} {s : List Char} (h : Spells d s) : SpellsAmid d s := by
  have := SpellsAmid.blanks Blank.nil h Blank.nil
  simpa using this

theorem spellsItems_compactItems {items : List Json}
    (h : ∀ item ∈ items, Spells (document item) (compactChars item)) (hne : items ≠ []) :
    SpellsItems (documents items) (compactItems items) := by
  induction items with
  | nil => exact absurd rfl hne
  | cons item rest ih =>
    have hitem := SpellsAmid.of_spells (h item List.mem_cons_self)
    cases rest with
    | nil => exact .last hitem
    | cons next rest =>
      exact .more hitem (ih (fun j hj => h j (List.mem_cons_of_mem _ hj)) (List.cons_ne_nil _ _))

theorem spellsMembers_compactMembers {members : List (String × Json)}
    (h : ∀ member ∈ members, Spells (document member.2) (compactChars member.2))
    (hne : members ≠ []) :
    SpellsMembers (memberDocuments members) (compactMembers members) := by
  induction members with
  | nil => exact absurd rfl hne
  | cons member rest ih =>
    obtain ⟨key, value⟩ := member
    have hvalue := SpellsAmid.of_spells (h (key, value) List.mem_cons_self)
    cases rest with
    | nil => exact .last Blank.nil hvalue
    | cons next rest =>
      have hothers := ih (fun j hj => h j (List.mem_cons_of_mem _ hj)) (List.cons_ne_nil _ _)
      simpa [compactMembers, memberDocuments] using SpellsMembers.more Blank.nil hvalue hothers

theorem spells_compactChars_object {members : List (String × Json)}
    (h : ∀ member ∈ members, Spells (document member.2) (compactChars member.2)) :
    Spells (document (.object members)) (compactChars (.object members)) := by
  cases members with
  | nil => exact .emptyObject Blank.nil
  | cons member rest =>
    exact .object (spellsMembers_compactMembers h (List.cons_ne_nil _ _))

theorem Plain.spells {depth : Nat} {j : Json} (h : Plain depth j) :
    Spells (document j) (compactChars j) := by
  induction h with
  | null => exact .null
  | bool b => exact .bool b
  | whole range => exact .whole range
  | text s => exact .text s
  | @list depth items plain ih =>
    cases items with
    | nil => exact .emptyList Blank.nil
    | cons item rest => exact .list (spellsItems_compactItems ih (List.cons_ne_nil _ _))
  | object plain sorted ih => exact spells_compactChars_object ih

/-! ## Single lines -/

theorem lineFeed_notMem_quoted (s : String) : '\n' ∉ quoted s := by
  have escaped (c : Char) : '\n' ∉ escapeChar c := by
    have digit (n : Nat) : '\n' ≠ hexDigit n := by
      have : ∀ d < 16, '\n' ≠ (Nat.toDigits 16 d).headD '0' := by decide
      exact this (n % 16) (Nat.mod_lt n (by decide))
    unfold escapeChar
    split_ifs with h1 h2 h3 h4 hfeed h5 h6 h7
    any_goals decide
    · simp [digit]
    · rw [List.mem_singleton]
      rintro rfl
      exact hfeed rfl
  simp [quoted, escaped]

theorem lineFeed_notMem_chars (n : Int) : '\n' ∉ (Number.whole n).chars := by
  have digits (n : Nat) : '\n' ∉ Nat.toDigits 10 n := fun h =>
    absurd (isDigit_of_mem_toDigits h) (by decide)
  by_cases h : 0 ≤ n
  · rw [Number.chars_of_nonneg h]
    exact digits _
  · rw [Number.chars_of_neg (by omega), List.mem_cons, not_or]
    exact ⟨by decide, digits _⟩

theorem lineFeed_notMem_items {items : List Json}
    (h : ∀ item ∈ items, '\n' ∉ compactChars item) : '\n' ∉ compactItems items := by
  induction items with
  | nil => simp [compactItems]
  | cons item rest ih =>
    rw [List.forall_mem_cons] at h
    cases rest with
    | nil => exact h.1
    | cons next rest => simp [compactItems, h.1, ih h.2]

theorem lineFeed_notMem_members {members : List (String × Json)}
    (h : ∀ member ∈ members, '\n' ∉ compactChars member.2) : '\n' ∉ compactMembers members := by
  induction members with
  | nil => simp [compactMembers]
  | cons member rest ih =>
    rw [List.forall_mem_cons] at h
    cases rest with
    | nil => simp [compactMembers, lineFeed_notMem_quoted, h.1]
    | cons next rest => simp [compactMembers, lineFeed_notMem_quoted, h.1, ih h.2]

theorem lineFeed_notMem_object {members : List (String × Json)}
    (h : ∀ member ∈ members, '\n' ∉ compactChars member.2) :
    '\n' ∉ compactChars (.object members) := by
  simp [compactChars, lineFeed_notMem_members h]

/-- A value is written on a single line. -/
theorem Plain.lineFeed_notMem {depth : Nat} {j : Json} (h : Plain depth j) :
    '\n' ∉ compactChars j := by
  induction h with
  | null => decide
  | bool b => cases b <;> decide
  | whole range => exact lineFeed_notMem_chars _
  | text s => exact lineFeed_notMem_quoted s
  | list plain ih => simp [compactChars, lineFeed_notMem_items ih]
  | object plain sorted ih => exact lineFeed_notMem_object ih

/-! ## Reading -/

/-- Members added one after the other to those of a sorted object. -/
def insertAll (before members : List (String × Json)) : List (String × Json) :=
  members.foldl (fun found member => insertMember member.1 member.2 found) before

theorem insertMember_of_lt {key : String} {value : Json} {before : List (String × Json)}
    (h : ∀ member ∈ before, member.1 < key) :
    insertMember key value before = before ++ [(key, value)] := by
  induction before with
  | nil => rfl
  | cons member before ih =>
    obtain ⟨k, v⟩ := member
    have hk : k < key := h (k, v) List.mem_cons_self
    have hne : ¬key = k := fun heq => String.lt_irrefl k (heq ▸ hk)
    rw [insertMember, if_neg (String.lt_asymm hk), if_neg hne,
      ih fun m hm => h m (List.mem_cons_of_mem _ hm)]
    rfl

/-- Sorted members stay as they are. -/
theorem insertAll_of_sorted {before members : List (String × Json)}
    (h : (before ++ members).Pairwise (·.1 < ·.1)) :
    insertAll before members = before ++ members := by
  induction members generalizing before with
  | nil => simp [insertAll]
  | cons member members ih =>
    have hlast : ∀ m ∈ before, m.1 < member.1 := fun m hm =>
      (List.pairwise_append.1 h).2.2 m hm member List.mem_cons_self
    rw [List.append_cons] at h ⊢
    rw [insertAll, List.foldl_cons, insertMember_of_lt hlast]
    exact ih h

theorem lookup_cons_eq (key k : String) (v : Json) (rest : List (String × Json)) :
    ((k, v) :: rest).lookup key = if key = k then some v else rest.lookup key := by
  rw [List.lookup_cons]
  by_cases h : key = k
  · rw [if_pos h, beq_iff_eq.2 h]
  · rw [if_neg h, beq_eq_false_iff_ne.2 h]

theorem lookup_eq_none {key : String} {members : List (String × Json)}
    (h : key ∉ members.map (·.1)) : members.lookup key = none := by
  induction members with
  | nil => rfl
  | cons member members ih =>
    rw [List.map_cons, List.mem_cons, not_or] at h
    rw [lookup_cons_eq, if_neg h.1, ih h.2]

theorem lookup_insertMember (key k : String) (v : Json) (before : List (String × Json)) :
    (insertMember k v before).lookup key =
      if key = k then some v else before.lookup key := by
  induction before with
  | nil => exact lookup_cons_eq key k v []
  | cons member before ih =>
    obtain ⟨k', v'⟩ := member
    rw [insertMember]
    by_cases hless : k < k'
    · rw [if_pos hless, lookup_cons_eq]
    · rw [if_neg hless]
      by_cases hequal : k = k'
      · subst hequal
        rw [if_pos rfl, lookup_cons_eq, lookup_cons_eq]
        by_cases hkey : key = k
        · rw [if_pos hkey, if_pos hkey]
        · rw [if_neg hkey, if_neg hkey, if_neg hkey]
      · rw [if_neg hequal, lookup_cons_eq, lookup_cons_eq, ih]
        by_cases hkey : key = k
        · subst hkey
          rw [if_pos rfl, if_neg hequal, if_pos rfl]
        · rw [if_neg hkey, if_neg hkey]

/-- Members with different keys are found under them. -/
theorem lookup_insertAll {before members : List (String × Json)}
    (h : (members.map (·.1)).Nodup) (key : String) :
    (insertAll before members).lookup key = (members.lookup key).or (before.lookup key) := by
  induction members generalizing before with
  | nil => rfl
  | cons member members ih =>
    obtain ⟨k, v⟩ := member
    rw [List.map_cons, List.nodup_cons] at h
    rw [insertAll, List.foldl_cons, ← insertAll, ih h.2, lookup_insertMember, lookup_cons_eq]
    by_cases hkey : key = k
    · subst hkey
      rw [if_pos rfl, if_pos rfl, lookup_eq_none h.1]
      rfl
    · rw [if_neg hkey, if_neg hkey]

open Document

theorem readItems_documents {depth : Nat} {items : List Json}
    (h : ∀ item ∈ items, readValue depth (document item) = .ok item) :
    readItems depth (documents items) .closed = .ok items := by
  induction items with
  | nil => rfl
  | cons item items ih =>
    rw [documents, readItems, h item List.mem_cons_self,
      ih fun j hj => h j (List.mem_cons_of_mem _ hj)]
    rfl

theorem readMembers_memberDocuments {depth : Nat} {before members : List (String × Json)}
    (h : ∀ member ∈ members, readValue depth (document member.2) = .ok member.2) :
    readMembers depth (memberDocuments members) .closed before =
      .ok (insertAll before members) := by
  induction members generalizing before with
  | nil => rfl
  | cons member members ih =>
    obtain ⟨key, value⟩ := member
    rw [memberDocuments, readMembers, h (key, value) List.mem_cons_self]
    exact ih fun j hj => h j (List.mem_cons_of_mem _ hj)

theorem Plain.readValue_document {depth : Nat} {j : Json} (h : Plain depth j) :
    readValue depth (document j) = .ok j := by
  induction h with
  | null => rfl
  | bool b => rfl
  | whole range => rfl
  | text s => rfl
  | list plain ih =>
    rw [document, readValue, readItems_documents ih]
    rfl
  | @object depth members plain sorted ih =>
    have hsorted : insertAll [] members = members := insertAll_of_sorted sorted
    rw [document, readValue, readMembers_memberDocuments ih, hsorted]
    rfl

/-- An object whose members can be read back is read as one that has the same member, if any, under
every key. -/
theorem read_compact_object {members : List (String × Json)}
    (plain : ∀ member ∈ members, Plain (depthLimit - 1) member.2)
    (distinct : (members.map (·.1)).Nodup) :
    ∃ found, read (compact (.object members)) = .ok (.object found) ∧
      ∀ key, found.lookup key = members.lookup key := by
  refine ⟨insertAll [] members, ?_, fun key => ?_⟩
  · have hspells := spells_compactChars_object fun member h => (plain member h).spells
    have hmembers : readMembers (depthLimit - 1) (memberDocuments members) .closed [] =
        .ok (insertAll [] members) :=
      readMembers_memberDocuments fun member h => (plain member h).readValue_document
    have hread : readValue depthLimit (document (.object members)) =
        .ok (.object (insertAll [] members)) := congrArg (Except.map Json.object) hmembers
    rw [read, readWith, compact, String.toList_ofList, hspells.ofChars_eq]
    simp only [hread]
    rfl
  · rw [lookup_insertAll distinct]
    exact Option.or_none

/-! ## Too deep values -/

/-- The first item that cannot be read ends the reading of a list. -/
theorem readItems_refused {depth : Nat} {items : List Json} {fault : Fault}
    (h : ∀ item ∈ items, readValue depth (document item) = .ok item ∨
      readValue depth (document item) = .error fault)
    (hrefused : ∃ item ∈ items, readValue depth (document item) = .error fault) :
    readItems depth (documents items) .closed = .error fault := by
  induction items with
  | nil => simp at hrefused
  | cons item items ih =>
    rw [List.forall_mem_cons] at h
    rw [documents, readItems]
    rcases h.1 with hitem | hitem
    · have hothers : ∃ item ∈ items, readValue depth (document item) = .error fault := by
        obtain ⟨j, hj, hfault⟩ := hrefused
        rcases List.mem_cons.1 hj with rfl | hj
        · rw [hitem] at hfault
          cases hfault
        · exact ⟨j, hj, hfault⟩
      rw [hitem, ih h.2 hothers]
      rfl
    · rw [hitem]

theorem readMembers_refused {depth : Nat} {before members : List (String × Json)} {fault : Fault}
    (h : ∀ member ∈ members, readValue depth (document member.2) = .ok member.2 ∨
      readValue depth (document member.2) = .error fault)
    (hrefused : ∃ member ∈ members, readValue depth (document member.2) = .error fault) :
    readMembers depth (memberDocuments members) .closed before = .error fault := by
  induction members generalizing before with
  | nil => simp at hrefused
  | cons member members ih =>
    obtain ⟨key, value⟩ := member
    rw [List.forall_mem_cons] at h
    rw [memberDocuments, readMembers]
    rcases h.1 with hvalue | hvalue
    · have hothers : ∃ member ∈ members, readValue depth (document member.2) = .error fault := by
        obtain ⟨m, hm, hfault⟩ := hrefused
        rcases List.mem_cons.1 hm with rfl | hm
        · rw [hvalue] at hfault
          cases hfault
        · exact ⟨m, hm, hfault⟩
      rw [hvalue]
      exact ih h.2 hothers
    · rw [hvalue]

/-- A value that could be read back is malformed to a reader that does not go deep enough for it. -/
theorem Plain.readValue_deep {depth limit : Nat} {j : Json} (h : Plain depth j)
    (hdeep : ¬ Plain limit j) : readValue limit (document j) = .error .malformed := by
  induction h generalizing limit with
  | null => exact absurd .null hdeep
  | bool b => exact absurd (.bool b) hdeep
  | whole range => exact absurd (.whole range) hdeep
  | text s => exact absurd (.text s) hdeep
  | @list depth items plain ih =>
    cases limit with
    | zero => rfl
    | succ limit =>
      have hsome : ∃ item ∈ items, ¬ Plain limit item := by
        by_contra hnone
        push Not at hnone
        exact hdeep (.list hnone)
      have hitems : ∀ item ∈ items, readValue limit (document item) = .ok item ∨
          readValue limit (document item) = .error .malformed := by
        intro item hitem
        by_cases hplain : Plain limit item
        · exact .inl hplain.readValue_document
        · exact .inr (ih item hitem hplain)
      obtain ⟨item, hitem, hnot⟩ := hsome
      rw [document, readValue, readItems_refused hitems ⟨item, hitem, ih item hitem hnot⟩]
      rfl
  | @object depth members plain sorted ih =>
    cases limit with
    | zero => rfl
    | succ limit =>
      have hsome : ∃ member ∈ members, ¬ Plain limit member.2 := by
        by_contra hnone
        push Not at hnone
        exact hdeep (.object hnone sorted)
      have hmembers : ∀ member ∈ members, readValue limit (document member.2) = .ok member.2 ∨
          readValue limit (document member.2) = .error .malformed := by
        intro member hmember
        by_cases hplain : Plain limit member.2
        · exact .inl hplain.readValue_document
        · exact .inr (ih member hmember hplain)
      obtain ⟨member, hmember, hnot⟩ := hsome
      have hrefused := ih member hmember hnot
      rw [document, readValue, readMembers_refused hmembers ⟨member, hmember, hrefused⟩]
      rfl

/-- An object with a member that lies too deep cannot be read back. -/
theorem read_compact_deep {members : List (String × Json)}
    (plain : ∀ member ∈ members, ∃ depth, Plain depth member.2)
    (deep : ∃ member ∈ members, ¬ Plain (depthLimit - 1) member.2) :
    read (compact (.object members)) = .error .malformed := by
  have hspells := spells_compactChars_object fun member hmember =>
    (plain member hmember).elim fun _ h => h.spells
  have hmembers : ∀ member ∈ members,
      readValue (depthLimit - 1) (document member.2) = .ok member.2 ∨
        readValue (depthLimit - 1) (document member.2) = .error .malformed := by
    intro member hmember
    obtain ⟨depth, h⟩ := plain member hmember
    by_cases hplain : Plain (depthLimit - 1) member.2
    · exact .inl hplain.readValue_document
    · exact .inr (h.readValue_deep hplain)
  obtain ⟨member, hmember, hnot⟩ := deep
  obtain ⟨depth, h⟩ := plain member hmember
  have hread : readValue depthLimit (document (.object members)) = .error .malformed :=
    congrArg (Except.map Json.object)
      (readMembers_refused hmembers ⟨member, hmember, h.readValue_deep hnot⟩)
  rw [read, readWith, compact, String.toList_ofList, hspells.ofChars_eq]
  simp only [hread]
  rfl

end CText.Json
