import CText.Proofs.Json.Faithful
import CText.Proofs.Yields

/-!
# What readers yield

What each field of a record keeps holds of the record, whether it is written as an object or as a
list, and what holds of each item that is read holds of the items of a list.
-/

namespace CText.Json.Document

variable {α β : Type} {P : α → Prop} {Q : β → Prop}

/-- A field of a record that is set once. -/
theorem yields_setOnce {x : Except Fault α} {field : Option α} {update : Option α → β}
    (h : Yields P x) (hupdate : ∀ a, P a → Q (update (some a))) :
    Yields Q ((setOnce field x).map update) := by
  cases field with
  | some a => exact yields_error _
  | none =>
    have hsome : Yields (∃ a, · = some a ∧ P a) (x.map some) := h.map fun a ha => ⟨a, rfl, ha⟩
    refine hsome.map ?_
    rintro _ ⟨a, rfl, ha⟩
    exact hupdate a ha

theorem yields_require {field : Option α} (h : ∀ a ∈ field, P a) : Yields P (require field) := by
  cases field with
  | some a => exact yields_ok (h a rfl)
  | none => exact yields_error _

theorem yields_finish {a : α} (h : P a) (ending : Ending) : Yields P (finish ending a) := by
  cases ending with
  | closed => exact yields_ok h
  | cut reading passing => exact yields_error reading

theorem yields_readInt (low high : Int) (d : Document) :
    Yields (fun n => low ≤ n ∧ n ≤ high) (readInt low high d) := by
  unfold readInt
  split
  · split_ifs with hrange
    · exact yields_ok hrange
    · exact yields_error _
  · exact yields_error _

theorem yields_readValue {d : Document} (fits : Fits d) (depth : Nat) :
    Yields (fun j => FloatFree j → Plain depth j) (readValue depth d) :=
  fits.readsPlain depth

/-- The items of a list that is read. -/
theorem yields_readList {read : Document → Except Fault α} {d : Document} (fits : Fits d)
    (h : ∀ item, Fits item → Yields P (read item)) : Yields (∀ a ∈ ·, P a) (readList read d) := by
  cases fits with
  | @list items ending fits =>
    have hitems : Yields (∀ a ∈ ·, P a) (items.mapM read) :=
      yields_mapM fun item hitem => h item (fits item hitem)
    exact hitems.bind fun read hread => yields_finish hread ending
  | _ => exact yields_error _

variable {step : α → String → Document → Except Fault α}

theorem yields_readFields {members : List (Option String × Document)} {start : α} (hstart : P start)
    (fits : ∀ member ∈ members, Fits member.2)
    (hstep : ∀ state field d, P state → Fits d → Yields P (step state field d)) :
    Yields P (readFields step start members) := by
  induction members generalizing start with
  | nil => exact yields_ok hstart
  | cons member members ih =>
    rw [List.forall_mem_cons] at fits
    obtain ⟨_ | key, d⟩ := member
    · exact yields_error _
    · have hnext := hstep start key d hstart fits.1
      rw [readFields]
      cases hread : step start key d with
      | error fault => exact yields_error fault
      | ok next => exact ih (hnext next hread) fits.2

/-- What holds at the start and is kept by every field holds of a record that is read. -/
theorem yields_readRecord {names : List String} {start : α} {d : Document} (hstart : P start)
    (fits : Fits d) (hstep : ∀ state field d, P state → Fits d → Yields P (step state field d)) :
    Yields P (readRecord names step start d) := by
  cases fits with
  | @object members ending fits =>
    have hfields := yields_readFields hstart fits hstep
    exact hfields.bind fun state hstate => yields_finish hstate ending
  | @list items ending fits =>
    have hzip : ∀ member ∈ (names.map some).zip items, Fits member.2 := fun member hmember =>
      fits member.2 (List.of_mem_zip hmember).2
    have hfields := yields_readFields hstart hzip hstep
    refine hfields.bind fun state hstate => ?_
    split_ifs
    · exact yields_error _
    · exact yields_finish hstate ending
  | _ => exact yields_error _

/-- What a reader yields for every document of a text, it yields for the text. -/
theorem yields_readWith {reader : Document → Except Fault α}
    (h : ∀ d, Fits d → Yields P (reader d)) (text : String) : Yields P (readWith reader text) :=
  fun a hread => h _ (fits_ofChars text.toList) a (reader_of_readWith hread)

end CText.Json.Document
