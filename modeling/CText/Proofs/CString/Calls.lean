import CText.Proofs.CString.Tokens

/-!
# Calls of both kinds on one buffer

Separating and skipping may take turns on one buffer with one cursor, each call with delimiters of
its own. A call touches nothing in front of its cursor and leaves the cursor behind whatever it
returned or overwrote, so no later call can come back to it. This is one property of a single call
that carries over from call to call; what a whole history guarantees follows.
-/

namespace CText.CString

variable {α : Type}

/-- A cut made at `cursor` or later: it goes on behind the cursor, its token does not begin in front
of it, and what stands in front is kept. Nothing follows a cursor that is exhausted, and everything
is kept then. -/
structure Follows (s : List α) (cursor : Option Nat) (c : Cut α) : Prop where
  cursor_lt : ∀ j ∈ c.cursor, ∃ i ∈ cursor, i < j
  start_le : ∀ r ∈ c.token, ∃ i ∈ cursor, i ≤ r.start
  kept : ∀ k, (∀ i ∈ cursor, k < i) → c.buffer[k]? = s[k]?

theorem follows_finished (s : List α) (cursor : Option Nat) :
    Follows s cursor ⟨s, none, none⟩ where
  cursor_lt j hj := by cases hj
  start_le r hr := by cases hr
  kept k _ := rfl

theorem Follows.trans {s : List α} {cursor : Option Nat} {c c' : Cut α}
    (h : Follows s cursor c) (h' : Follows c.buffer c.cursor c') : Follows s cursor c' where
  cursor_lt j hj := by
    obtain ⟨i, hi, hij⟩ := h'.cursor_lt j hj
    obtain ⟨first, hfirst, hlt⟩ := h.cursor_lt i hi
    exact ⟨first, hfirst, hlt.trans hij⟩
  start_le r hr := by
    obtain ⟨i, hi, hir⟩ := h'.start_le r hr
    obtain ⟨first, hfirst, hlt⟩ := h.cursor_lt i hi
    exact ⟨first, hfirst, hlt.le.trans hir⟩
  kept k hk := by
    have hfront : ∀ i ∈ c.cursor, k < i := by
      intro i hi
      obtain ⟨first, hfirst, hlt⟩ := h.cursor_lt i hi
      exact (hk first hfirst).trans hlt
    rw [h'.kept k hfront, h.kept k hk]

structure Call (α : Type) where
  style : TokenStyle
  delims : List α

structure Event (α : Type) where
  call : Call α
  buffer : List α
  cursor : Option Nat

variable [DecidableEq α] [CodeUnit α]

def Event.cut (e : Event α) : Cut α :=
  Tokenizer.next ⟨e.call.delims, e.call.style, e.cursor⟩ e.buffer

/-- Calls made one after the other, each on the buffer and the cursor that the one before left. -/
def history : List (Call α) → List α → Option Nat → List (Event α)
  | [], _, _ => []
  | call :: calls, s, cursor =>
    let e : Event α := ⟨call, s, cursor⟩
    e :: history calls e.cut.buffer e.cut.cursor

variable {s delims : List α} {pos : Nat} {cursor : Option Nat} {c : Cut α} {e : Event α}

namespace Outcome

theorem follows (h : Outcome s delims pos c) : Follows s (some pos) c := by
  cases h with
  | finished => exact follows_finished s _
  | last token start_le stop_le ended =>
    refine ⟨?_, ?_, ?_⟩
    · intro j hj
      cases hj
    · rintro r ⟨⟩
      exact ⟨pos, rfl, start_le⟩
    · intro k _
      rfl
  | cut token start_le d found delimits =>
    refine ⟨?_, ?_, ?_⟩
    · rintro j ⟨⟩
      exact ⟨pos, rfl, by omega⟩
    · rintro r ⟨⟩
      exact ⟨pos, rfl, start_le⟩
    · intro k hk
      have hlt := hk pos rfl
      exact List.getElem?_set_ne (by omega)

theorem length_eq (h : Outcome s delims pos c) : c.buffer.length = s.length := by
  cases h with
  | finished => rfl
  | last => rfl
  | cut => exact List.length_set

theorem cursor_le (h : Outcome s delims pos c) : ∀ j ∈ c.cursor, j ≤ s.length := by
  cases h with
  | finished => intro j hj; cases hj
  | last => intro j hj; cases hj
  | cut token start_le d found =>
    rintro j ⟨⟩
    exact (List.getElem?_eq_some_iff.1 found).1

theorem stop_le (h : Outcome s delims pos c) : ∀ r ∈ c.token, r.start + r.size ≤ s.length := by
  cases h with
  | finished => intro r hr; cases hr
  | last token start_le stop_le =>
    rintro r ⟨⟩
    exact stop_le
  | cut token start_le d found =>
    rintro r ⟨⟩
    exact (List.getElem?_eq_some_iff.1 found).1.le

theorem ended (h : Outcome s delims pos c) :
    ∀ r ∈ c.token, ∀ u ∈ c.buffer[r.start + r.size]?, u = CodeUnit.nul := by
  cases h with
  | finished => intro r hr; cases hr
  | last token start_le stop_le ended =>
    rintro r ⟨⟩
    exact ended
  | cut token start_le d found =>
    rintro r ⟨⟩ u hu
    rw [List.getElem?_set_self (List.getElem?_eq_some_iff.1 found).1] at hu
    cases hu
    rfl

/-- The cursor is left behind the token and what ended it. -/
theorem stop_lt (h : Outcome s delims pos c) :
    ∀ r ∈ c.token, ∀ i ∈ c.cursor, r.start + r.size < i := by
  cases h with
  | finished => intro r hr; cases hr
  | last => intro r _ i hi; cases hi
  | cut =>
    rintro r ⟨⟩ i ⟨⟩
    exact Nat.lt_succ_self _

theorem change (h : Outcome s delims pos c) :
    c.buffer = s ∨ ∃ i d, s[i]? = some d ∧ isDelimiter delims d = true ∧
      c.buffer = s.set i CodeUnit.nul := by
  cases h with
  | finished => exact .inl rfl
  | last => exact .inl rfl
  | cut token start_le d found delimits => exact .inr ⟨_, d, found, delimits, rfl⟩

end Outcome

/-- What each call guarantees in a buffer of `len` units. The cursor stays in the buffer and moves
on, or is exhausted. A token lies in the buffer, not in front of the cursor, and is a string of its
own. At most one unit changes, a delimiter that becomes a terminator. A skipping call moves over
the span of delimiters and returns the span without, or finds the string at its end. -/
structure Event.Sound (len : Nat) (e : Event α) : Prop where
  length_eq : e.buffer.length = len
  length_cut : e.cut.buffer.length = len
  cursor_le : ∀ i ∈ e.cursor, i ≤ len
  cursor_cut : ∀ j ∈ e.cut.cursor, j ≤ len ∧ ∃ i ∈ e.cursor, i < j
  start_le : ∀ r ∈ e.cut.token, ∃ i ∈ e.cursor, i ≤ r.start
  stop_le : ∀ r ∈ e.cut.token, r.start + r.size ≤ len
  ended : ∀ r ∈ e.cut.token, ∀ u ∈ e.cut.buffer[r.start + r.size]?, u = CodeUnit.nul
  change : e.cut.buffer = e.buffer ∨
    ∃ i d, e.buffer[i]? = some d ∧ isDelimiter e.call.delims d = true ∧
      e.cut.buffer = e.buffer.set i CodeUnit.nul
  skipped : e.call.style = .skipEmpty →
    e.cut.token = e.cursor.bind fun pos =>
      let start := pos + span (e.buffer.drop pos) e.call.delims true
      if length (e.buffer.drop start) = 0 then none
      else some ⟨start, span (e.buffer.drop start) e.call.delims false⟩

/-- What a call owes to an earlier one. Its cursor is further on, or exhausted. Its token begins
behind the one that the earlier call returned, and behind the unit that ended it. Up to and with
that unit the buffer is as the earlier call left it. -/
structure Event.Before (a b : Event α) : Prop where
  cursor_lt : ∀ j ∈ b.cut.cursor, ∃ i ∈ a.cut.cursor, i < j
  stop_lt : ∀ r ∈ a.cut.token, ∀ r' ∈ b.cut.token, r.start + r.size < r'.start
  kept : ∀ r ∈ a.cut.token, ∀ k ≤ r.start + r.size, b.cut.buffer[k]? = a.cut.buffer[k]?

theorem Event.exists_outcome (h : ∀ i ∈ e.cursor, i ≤ e.buffer.length) :
    ∃ pos, Outcome e.buffer e.call.delims pos e.cut := by
  cases hcursor : e.cursor with
  | none =>
    refine ⟨0, ?_⟩
    rw [Event.cut, Tokenizer.next_of_exhausted hcursor]
    exact .finished
  | some pos =>
    exact ⟨pos, Tokenizer.next_outcome (t := ⟨_, _, e.cursor⟩) hcursor (h pos hcursor)⟩

theorem Event.follows (h : ∀ i ∈ e.cursor, i ≤ e.buffer.length) :
    Follows e.buffer e.cursor e.cut := by
  cases hcursor : e.cursor with
  | none =>
    rw [Event.cut, Tokenizer.next_of_exhausted hcursor]
    exact follows_finished _ _
  | some pos =>
    exact (Tokenizer.next_outcome (t := ⟨_, _, e.cursor⟩) hcursor (h pos hcursor)).follows

theorem Event.sound (h : ∀ i ∈ e.cursor, i ≤ e.buffer.length) : e.Sound e.buffer.length := by
  obtain ⟨pos, hout⟩ := Event.exists_outcome h
  have hfollows := Event.follows h
  exact {
    length_eq := rfl
    length_cut := hout.length_eq
    cursor_le := h
    cursor_cut := fun j hj => ⟨hout.cursor_le j hj, hfollows.cursor_lt j hj⟩
    start_le := hfollows.start_le
    stop_le := hout.stop_le
    ended := hout.ended
    change := hout.change
    skipped := fun hstyle => by
      rw [Event.cut, hstyle, Tokenizer.next_skipEmpty, skip_token] }

theorem Event.Sound.cursor_next {len : Nat} (h : e.Sound len) :
    ∀ j ∈ e.cut.cursor, j ≤ e.cut.buffer.length := by
  intro j hj
  rw [h.length_cut]
  exact (h.cursor_cut j hj).1

/-- No call of a history comes back in front of the cursor that it began with. -/
theorem follows_of_mem_history {calls : List (Call α)} (h : ∀ i ∈ cursor, i ≤ s.length)
    (he : e ∈ history calls s cursor) : Follows s cursor e.cut := by
  induction calls generalizing s cursor with
  | nil => cases he
  | cons call calls ih =>
    have hfirst : Follows s cursor (Event.cut ⟨call, s, cursor⟩) :=
      Event.follows (e := ⟨call, s, cursor⟩) h
    rcases List.mem_cons.1 he with rfl | he
    · exact hfirst
    · exact hfirst.trans (ih (Event.sound (e := ⟨call, s, cursor⟩) h).cursor_next he)

theorem Event.before_of_follows {a b : Event α} (h : ∀ i ∈ a.cursor, i ≤ a.buffer.length)
    (hb : Follows a.cut.buffer a.cut.cursor b.cut) : a.Before b := by
  obtain ⟨pos, hout⟩ := Event.exists_outcome h
  refine ⟨hb.cursor_lt, ?_, ?_⟩
  · intro r hr r' hr'
    obtain ⟨i, hi, hle⟩ := hb.start_le r' hr'
    exact (hout.stop_lt r hr i hi).trans_le hle
  · intro r hr k hk
    exact hb.kept k fun i hi => hk.trans_lt (hout.stop_lt r hr i hi)

/-- Calls of both kinds, in any order and with any delimiters, from a cursor in the buffer: each
keeps its guarantees, and none undoes what an earlier one returned. -/
theorem history_sound (calls : List (Call α)) (s : List α) (cursor : Option Nat)
    (h : ∀ i ∈ cursor, i ≤ s.length) :
    (∀ e ∈ history calls s cursor, e.Sound s.length) ∧
      (history calls s cursor).Pairwise Event.Before := by
  induction calls generalizing s cursor with
  | nil => exact ⟨fun e he => (List.not_mem_nil he).elim, .nil⟩
  | cons call calls ih =>
    have hfirst : Event.Sound s.length ⟨call, s, cursor⟩ :=
      Event.sound (e := ⟨call, s, cursor⟩) h
    obtain ⟨hsound, hbefore⟩ := ih _ _ hfirst.cursor_next
    rw [hfirst.length_cut] at hsound
    constructor
    · intro e he
      rcases List.mem_cons.1 he with rfl | he
      · exact hfirst
      · exact hsound e he
    · refine List.Pairwise.cons (fun b hb => ?_) hbefore
      exact Event.before_of_follows h (follows_of_mem_history hfirst.cursor_next hb)

/-- Four calls on `a,;b c`: the second skips the semicolon that the first left, the third goes on
behind the blank that the second cut at, and the last finds nothing. -/
theorem history_sample :
    let calls : List (Call UInt8) :=
      [⟨.separate, [44]⟩, ⟨.skipEmpty, [59, 32]⟩, ⟨.separate, [44]⟩, ⟨.skipEmpty, [44]⟩]
    let events := history calls [97, 44, 59, 98, 32, 99] (some 0)
    events.map (·.cut.token) = [some ⟨0, 1⟩, some ⟨3, 1⟩, some ⟨5, 1⟩, none] ∧
      (∀ e ∈ events, e.Sound 6) ∧ events.Pairwise Event.Before :=
  ⟨by decide, history_sound _ _ _ fun i hi => by cases hi; decide⟩

end CText.CString
