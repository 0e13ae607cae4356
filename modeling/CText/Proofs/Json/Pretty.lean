import CText.Proofs.Json.Plain

/-!
# Values over several lines

What is written for a value over several lines spells the same document as what is written for it
on one line: only blanks stand between its parts.
-/

namespace CText.Json

/-- A value without floating numbers and with whole numbers of 64 bits, however deep. -/
inductive Spellable : Json → Prop
  | null : Spellable .null
  | bool (b : Bool) : Spellable (.bool b)
  | whole {n : Int} (range : InWord n) : Spellable (.number (.whole n))
  | text (s : String) : Spellable (.text s)
  | list {items : List Json} (spellable : ∀ item ∈ items, Spellable item) :
      Spellable (.list items)
  | object {members : List (String × Json)}
      (spellable : ∀ member ∈ members, Spellable member.2) : Spellable (.object members)

/-- Every value that can be read back can be spelled. -/
theorem Plain.spellable {depth : Nat} {j : Json} (h : Plain depth j) : Spellable j := by
  induction h with
  | null => exact .null
  | bool b => exact .bool b
  | whole range => exact .whole range
  | text s => exact .text s
  | list _ ih => exact .list ih
  | object _ _ ih => exact .object ih

theorem blank_newLine (level : Nat) : Blank (newLine level) := by
  intro c hc
  rcases List.mem_cons.1 hc with rfl | hspace
  · decide
  · rw [List.eq_of_mem_replicate hspace]
    decide

theorem blank_space : Blank [' '] := by
  intro c hc
  rw [List.mem_singleton.1 hc]
  decide

/-- Each item begins after the blanks in front of it, and the last is followed by blanks. -/
theorem spellsItems_prettyItems {level : Nat} {items : List Json} {before after : List Char}
    (h : ∀ item ∈ items, Spells (document item) (prettyChars level item)) (hne : items ≠ [])
    (hbefore : Blank before) (hafter : Blank after) :
    SpellsItems (documents items) (before ++ (prettyItems level items ++ after)) := by
  induction items generalizing before with
  | nil => exact absurd rfl hne
  | cons item rest ih =>
    rw [List.forall_mem_cons] at h
    cases rest with
    | nil => exact .last (.blanks hbefore h.1 hafter)
    | cons next rest =>
      have hothers := ih h.2 (List.cons_ne_nil _ _) (blank_newLine level)
      have hmore := SpellsItems.more (.blanks hbefore h.1 .nil) hothers
      simpa [prettyItems, documents] using hmore

theorem spellsMembers_prettyMembers {level : Nat} {members : List (String × Json)}
    {before after : List Char}
    (h : ∀ member ∈ members, Spells (document member.2) (prettyChars level member.2))
    (hne : members ≠ []) (hbefore : Blank before) (hafter : Blank after) :
    SpellsMembers (memberDocuments members) (before ++ (prettyMembers level members ++ after)) := by
  induction members generalizing before with
  | nil => exact absurd rfl hne
  | cons member rest ih =>
    obtain ⟨key, value⟩ := member
    rw [List.forall_mem_cons] at h
    cases rest with
    | nil =>
      have hlast : SpellsMembers [(some key, document value)] _ :=
        .last hbefore (.blanks blank_space h.1 hafter)
      simpa [prettyMembers, memberDocuments] using hlast
    | cons next rest =>
      have hothers := ih h.2 (List.cons_ne_nil _ _) (blank_newLine level)
      have hmore : SpellsMembers ((some key, document value) :: memberDocuments (next :: rest)) _ :=
        .more hbefore (.blanks blank_space h.1 .nil) hothers
      simpa [prettyMembers, memberDocuments] using hmore

/-- What is written for a value over several lines spells its document. -/
theorem Spellable.spells {j : Json} (h : Spellable j) (level : Nat) :
    Spells (document j) (prettyChars level j) := by
  induction h generalizing level with
  | null => exact .null
  | bool b => exact .bool b
  | whole range => exact .whole range
  | text s => exact .text s
  | @list items _ ih =>
    cases items with
    | nil => exact .emptyList .nil
    | cons item rest =>
      have hitems := spellsItems_prettyItems (fun item hitem => ih item hitem (level + 1))
        (List.cons_ne_nil _ _) (blank_newLine (level + 1)) (blank_newLine level)
      simpa [prettyChars, document] using Spells.list hitems
  | @object members _ ih =>
    cases members with
    | nil => exact .emptyObject .nil
    | cons member rest =>
      have hmembers := spellsMembers_prettyMembers
        (fun member hmember => ih member hmember (level + 1))
        (List.cons_ne_nil _ _) (blank_newLine (level + 1)) (blank_newLine level)
      simpa [prettyChars, document] using Spells.object hmembers

/-- A reader finds in what is written for a value what it finds in the document. -/
theorem Spellable.readWith_pretty {α : Type} {reader : Document → Except Fault α} {j : Json}
    {value : α} (h : Spellable j) (hvalue : reader (document j) = .ok value) :
    readWith reader j.pretty = .ok value := by
  simp only [readWith, pretty, String.toList_ofList, (h.spells 0).ofChars_eq, hvalue]
  rfl

end CText.Json
