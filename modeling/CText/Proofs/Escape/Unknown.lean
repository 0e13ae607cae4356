import CText.Proofs.Escape.RoundTrip

/-!
# What is done about unknown escapes

A text is read in pieces: bytes that stand for themselves, escapes, and backslashes that begin no
escape. How it is cut into pieces does not depend on what is done about the last kind, so readers
that differ only in this stay at the same place of the text, however much each of them has written.
They write the same for every piece but an unknown one, and they all fail at an escape that begins
like one and does not go on like it.
-/

namespace CText.Escape

def refusing (raw : Bool) : Flags := ⟨false, false, raw⟩

def keeping (raw : Bool) : Flags := ⟨true, false, raw⟩

def dropping (raw : Bool) : Flags := ⟨false, true, raw⟩

/-! ## Pieces -/

inductive Piece where
  /-- A part of the text that stands for the bytes `out`, whatever is done about unknown escapes. -/
  | known (source out : List UInt8)
  /-- A backslash that begins no escape and the byte behind it, if there is one. -/
  | unknown (behind : List UInt8)

/-- The piece as it stands in the text. -/
def Piece.source : Piece → List UInt8
  | known source _ => source
  | unknown behind => backslash :: behind

/-- What is written if unknown escapes are kept. -/
def Piece.kept : Piece → List UInt8
  | known _ out => out
  | unknown behind => backslash :: behind

/-- What is written if the backslash of an unknown escape is dropped. -/
def Piece.dropped : Piece → List UInt8
  | known _ out => out
  | unknown behind => behind

def sourceOf (pieces : List Piece) : List UInt8 := pieces.flatMap Piece.source

def firstUnknown : List Piece → Option Nat
  | [] => none
  | .known source _ :: pieces => (firstUnknown pieces).map (source.length + ·)
  | .unknown _ :: _ => some 0

/-- What is wrong with the escape behind a backslash, if there is a known one. -/
def faultOf (raw : Bool) (rest : List UInt8) : Option Malformed :=
  match readEscape rest with
  | .error fault => some fault
  | .ok (.unknown, _) => none
  | .ok (v, _) =>
    match write (refusing raw) v with
    | .error fault => some fault
    | .ok _ => none

/-- The pieces that are read of a text, in front of what is left of it. -/
inductive Reads (raw : Bool) : (text : List UInt8) → List Piece → (left : List UInt8) → Prop where
  | stop (left : List UInt8) : Reads raw left [] left
  | byte {c : UInt8} {rest left : List UInt8} {pieces : List Piece} (hc : c ≠ backslash)
    (h : Reads raw rest pieces left) : Reads raw (c :: rest) (.known [c] [c] :: pieces) left
  | escape {tail rest out left : List UInt8} {v : Value} {pieces : List Piece}
    (hread : readEscape (tail ++ rest) = .ok (v, tail.length))
    (hwrite : write (refusing raw) v = .ok out) (h : Reads raw rest pieces left) :
    Reads raw (backslash :: (tail ++ rest)) (.known (backslash :: tail) out :: pieces) left
  | unknown {behind rest left : List UInt8} {pieces : List Piece}
    (hread : readEscape (behind ++ rest) = .ok (.unknown, 0))
    (hbehind : behind = (behind ++ rest).take 1) (h : Reads raw rest pieces left) :
    Reads raw (backslash :: (behind ++ rest)) (.unknown behind :: pieces) left

variable {flags : Flags} {raw : Bool} {text left rest : List UInt8} {pieces : List Piece}

/-- Nothing of the text is lost. -/
theorem Reads.source_append (h : Reads raw text pieces left) : sourceOf pieces ++ left = text := by
  induction h with
  | stop left => rfl
  | byte _ _ ih => exact congrArg (_ :: ·) ih
  | @escape tail rest out left v pieces _ _ _ ih =>
    rw [← ih, ← List.append_assoc]
    rfl
  | @unknown behind rest left pieces _ _ _ ih =>
    rw [← ih, ← List.append_assoc]
    rfl

theorem exists_of_faultOf_none (h : faultOf raw rest = none) :
    ∃ v used, readEscape rest = .ok (v, used) ∧
      (v = .unknown ∨ ∃ out, write (refusing raw) v = .ok out) := by
  rw [faultOf] at h
  split at h
  next => cases h
  next used hread => exact ⟨.unknown, used, hread, .inl rfl⟩
  next v used _ hread =>
    split at h
    next => cases h
    next out hwrite => exact ⟨v, used, hread, .inr ⟨out, hwrite⟩⟩

/-- Every text is read to its end or up to a known escape with a fault. -/
theorem exists_reads (raw : Bool) (text : List UInt8) :
    ∃ pieces left, Reads raw text pieces left ∧
      (left = [] ∨ ∃ rest fault, left = backslash :: rest ∧ faultOf raw rest = some fault) := by
  induction hn : text.length using Nat.strong_induction_on generalizing text with
  | _ n ih =>
    cases text with
    | nil => exact ⟨[], [], .stop [], .inl rfl⟩
    | cons c rest =>
      rw [List.length_cons] at hn
      by_cases hc : c = backslash
      · subst hc
        cases hfault : faultOf raw rest with
        | some fault => exact ⟨[], _, .stop _, .inr ⟨rest, fault, rfl, hfault⟩⟩
        | none =>
          obtain ⟨v, used, hread, hv⟩ := exists_of_faultOf_none hfault
          obtain ⟨htakes, hused⟩ := readEscape_takes hread
          rcases hv with rfl | ⟨out, hwrite⟩
          · obtain ⟨pieces, left, hrest, hleft⟩ :=
              ih (rest.drop 1).length (by rw [List.length_drop]; omega) (rest.drop 1) rfl
            have hsplit : rest.take 1 ++ rest.drop 1 = rest := List.take_append_drop 1 rest
            have hunknown := Reads.unknown (by rw [hsplit, hread, show used = 0 from htakes])
              (by rw [hsplit]) hrest
            rw [hsplit] at hunknown
            exact ⟨_, left, hunknown, hleft⟩
          · obtain ⟨pieces, left, hrest, hleft⟩ :=
              ih (rest.drop used).length (by rw [List.length_drop]; omega) (rest.drop used) rfl
            have hsplit : rest.take used ++ rest.drop used = rest := List.take_append_drop used rest
            have hlen : (rest.take used).length = used := List.length_take_of_le hused
            have hescape := Reads.escape (by rw [hsplit, hread, hlen]) hwrite hrest
            rw [hsplit] at hescape
            exact ⟨_, left, hescape, hleft⟩
      · obtain ⟨pieces, left, hrest, hleft⟩ := ih rest.length (by omega) rest rfl
        exact ⟨_, left, .byte hc hrest, hleft⟩

/-! ## Readers in step -/

/-- Whether unknown escapes are let through. -/
def Flags.Lenient (flags : Flags) : Prop :=
  flags.keepUnknown = true ∨ flags.dropUnknown = true

theorem lenient_keeping (raw : Bool) : (keeping raw).Lenient := .inl rfl

theorem lenient_dropping (raw : Bool) : (dropping raw).Lenient := .inr rfl

/-- How a reader that does not refuse a piece writes it. -/
def Piece.written (flags : Flags) (piece : Piece) : List UInt8 :=
  if flags.keepUnknown then piece.kept else piece.dropped

theorem ReadsAs.append {first second out written rest : List UInt8}
    (hfirst : ReadsAs flags first out (second ++ rest))
    (hsecond : ReadsAs flags second written rest) :
    ReadsAs flags (first ++ second) (out ++ written) rest := by
  intro k
  rw [List.append_assoc, hfirst k, hsecond, List.length_append, ← Nat.add_assoc]
  cases decodeFrom flags rest (k + first.length + second.length) with
  | error e => rfl
  | ok s => exact congrArg Except.ok (List.append_assoc out written s).symm

theorem write_eq (v : Value) : write flags v = write (refusing flags.raw) v := by
  cases v <;> rfl

theorem readsAs_unknown {behind rest : List UInt8}
    (hread : readEscape (behind ++ rest) = .ok (.unknown, 0))
    (hbehind : behind = (behind ++ rest).take 1)
    (hflags : flags.Lenient) :
    ReadsAs flags (backslash :: behind) (Piece.written flags (.unknown behind)) rest := by
  intro k
  have hdecode : decodeEscape flags (behind ++ rest) =
      .ok (Piece.written flags (.unknown behind), behind.length) := by
    rw [decodeEscape_unknown hread, ← hbehind, Piece.written]
    by_cases hkeep : flags.keepUnknown = true
    · rw [if_pos hkeep, if_pos hkeep]
      rfl
    · rw [if_neg hkeep, if_neg hkeep, if_pos (hflags.resolve_left hkeep)]
      rfl
  rw [List.cons_append, decodeFrom_escape hdecode, List.drop_left, List.length_cons, Nat.add_assoc,
    Nat.add_comm 1]

theorem known_written (source out : List UInt8) : Piece.written flags (.known source out) = out :=
  ite_self out

/-- Readers that do not refuse one of the pieces go through them all. -/
theorem Reads.readsAs (h : Reads flags.raw text pieces left)
    (hflags : firstUnknown pieces = none ∨ flags.Lenient) :
    ReadsAs flags (sourceOf pieces) (pieces.flatMap (Piece.written flags)) left := by
  generalize hraw : flags.raw = raw at h
  -- A piece is read in front of the source of the pieces behind it.
  have known {source out : List UInt8} {pieces : List Piece} {left : List UInt8}
      (hfirst : ReadsAs flags source out (sourceOf pieces ++ left))
      (hrest : ReadsAs flags (sourceOf pieces) (pieces.flatMap (Piece.written flags)) left) :
      ReadsAs flags (sourceOf (.known source out :: pieces))
        ((Piece.known source out :: pieces).flatMap (Piece.written flags)) left := by
    rw [List.flatMap_cons, known_written]
    exact hfirst.append hrest
  induction h with
  | stop left =>
    intro k
    change decodeFrom flags left k = (decodeFrom flags left k).map ([] ++ ·)
    cases decodeFrom flags left k <;> rfl
  | byte hc _ ih =>
    exact known (readsAs_plain hc _) (ih (hflags.imp_left Option.map_eq_none_iff.1))
  | escape hread hwrite hrest ih =>
    rw [← hraw, ← write_eq] at hwrite
    rw [← hrest.source_append] at hread
    exact known (readsAs_escape _ hread hwrite) (ih (hflags.imp_left Option.map_eq_none_iff.1))
  | unknown hread hbehind hrest ih =>
    have hflags := hflags.resolve_left (Option.some_ne_none 0)
    rw [← hrest.source_append] at hread hbehind
    exact (readsAs_unknown hread hbehind hflags).append (ih (.inr hflags))

/-- A reader that refuses unknown escapes stops at the first one. -/
theorem Reads.decodeFrom_unknown {n : Nat} (h : Reads raw text pieces left)
    (hn : firstUnknown pieces = some n) (k : Nat) :
    decodeFrom (refusing raw) text k = .error (.invalidFormat .unknownEscape (k + n)) := by
  induction h generalizing n k with
  | stop left => cases hn
  | byte hc _ ih =>
    obtain ⟨m, hm, rfl⟩ := Option.map_eq_some_iff.1 hn
    rw [decodeFrom_plain hc, ih hm, Nat.add_assoc]
    rfl
  | @escape tail rest out left v pieces hread hwrite _ ih =>
    obtain ⟨m, hm, rfl⟩ := Option.map_eq_some_iff.1 hn
    have hreads : ReadsAs (refusing raw) (backslash :: tail) out rest :=
      readsAs_escape tail hread hwrite
    rw [← List.cons_append, hreads k, ih hm, Nat.add_assoc]
    rfl
  | unknown hread _ _ _ =>
    cases hn
    exact decodeFrom_fault (decodeEscape_unknown hread) k

theorem decodeFrom_faultOf {fault : Malformed} (h : faultOf flags.raw rest = some fault) (k : Nat) :
    decodeFrom flags (backslash :: rest) k = .error (.invalidFormat fault k) := by
  apply decodeFrom_fault
  rw [faultOf] at h
  split at h
  next hread =>
    cases h
    exact decodeEscape_fault hread
  next => cases h
  next v used hv hread =>
    split at h
    next hwrite =>
      cases h
      rw [decodeEscape_value hv hread, write_eq, hwrite]
      rfl
    next => cases h

/-! ## Answers -/

section

variable {s : List UInt8} {fault : Malformed}

theorem Reads.unescapeInPlace_ok (h : Reads flags.raw (CString.content s) pieces [])
    (hflags : firstUnknown pieces = none ∨ flags.Lenient) :
    unescapeInPlace s flags = .ok (pieces.flatMap (Piece.written flags)) := by
  have hread := h.readsAs hflags 0
  rw [h.source_append, decodeFrom_nil] at hread
  rw [unescapeInPlace_eq, decode, hread]
  exact congrArg Except.ok (List.append_nil _)

theorem Reads.unescapeInPlace_fault
    (h : Reads flags.raw (CString.content s) pieces (backslash :: rest))
    (hfault : faultOf flags.raw rest = some fault)
    (hflags : firstUnknown pieces = none ∨ flags.Lenient) :
    unescapeInPlace s flags =
      .error (.error (.invalidFormat fault (sourceOf pieces).length)) := by
  have hread := h.readsAs hflags 0
  rw [h.source_append, decodeFrom_faultOf hfault, Nat.zero_add] at hread
  rw [unescapeInPlace_eq, decode, hread]
  rfl

theorem Reads.unescapeInPlace_unknown {n : Nat} (h : Reads raw (CString.content s) pieces left)
    (hn : firstUnknown pieces = some n) :
    unescapeInPlace s (refusing raw) =
      .error (.error (.invalidFormat .unknownEscape n)) := by
  rw [unescapeInPlace_eq, decode, h.decodeFrom_unknown hn 0, Nat.zero_add]
  rfl

/-- Without unknown escapes there is nothing to drop. -/
theorem flatMap_dropped_eq_kept (h : firstUnknown pieces = none) :
    pieces.flatMap Piece.dropped = pieces.flatMap Piece.kept := by
  induction pieces with
  | nil => rfl
  | cons piece pieces ih =>
    cases piece with
    | known source out => exact congrArg (out ++ ·) (ih (Option.map_eq_none_iff.1 h))
    | unknown behind => cases h

/-- A reader that refuses nothing answers for every string that is read to its end. -/
theorem unescapeInPlace_eq_ok_iff {out : List UInt8}
    (hflags : flags.Lenient) :
    unescapeInPlace s flags = .ok out ↔
      ∃ pieces, Reads flags.raw (CString.content s) pieces [] ∧
        out = pieces.flatMap (Piece.written flags) := by
  constructor
  · intro hout
    obtain ⟨pieces, left, h, rfl | ⟨rest, fault, rfl, hfault⟩⟩ :=
      exists_reads flags.raw (CString.content s)
    · exact ⟨pieces, h, Except.ok.inj (hout.symm.trans (h.unescapeInPlace_ok (.inr hflags)))⟩
    · rw [h.unescapeInPlace_fault hfault (.inr hflags)] at hout
      cases hout
  · rintro ⟨pieces, h, rfl⟩
    exact h.unescapeInPlace_ok (.inr hflags)

/-- Such a reader fails at the first known escape that is malformed, and nowhere else. -/
theorem unescapeInPlace_eq_error_iff {e : Failure}
    (hflags : flags.Lenient) :
    unescapeInPlace s flags = .error e ↔
      ∃ pieces rest fault, Reads flags.raw (CString.content s) pieces (backslash :: rest) ∧
        faultOf flags.raw rest = some fault ∧
        e = .error (.invalidFormat fault (sourceOf pieces).length) := by
  constructor
  · intro he
    obtain ⟨pieces, left, h, rfl | ⟨rest, fault, rfl, hfault⟩⟩ :=
      exists_reads flags.raw (CString.content s)
    · rw [h.unescapeInPlace_ok (.inr hflags)] at he
      cases he
    · rw [h.unescapeInPlace_fault hfault (.inr hflags)] at he
      exact ⟨pieces, rest, fault, h, hfault, (Except.error.inj he).symm⟩
  · rintro ⟨pieces, rest, fault, h, hfault, rfl⟩
    exact h.unescapeInPlace_fault hfault (.inr hflags)

/-- A reader that refuses unknown escapes answers for every string that is read to its end and has
none. -/
theorem exists_reads_of_refusing {out : List UInt8}
    (hout : unescapeInPlace s (refusing raw) = .ok out) :
    ∃ pieces, Reads raw (CString.content s) pieces [] ∧ firstUnknown pieces = none ∧
      out = pieces.flatMap Piece.dropped := by
  obtain ⟨pieces, left, h, hleft⟩ := exists_reads raw (CString.content s)
  cases hn : firstUnknown pieces with
  | some n =>
    rw [h.unescapeInPlace_unknown hn] at hout
    cases hout
  | none =>
    rcases hleft with rfl | ⟨rest, fault, rfl, hfault⟩
    · exact ⟨pieces, h, hn, Except.ok.inj (hout.symm.trans (h.unescapeInPlace_ok (.inl hn)))⟩
    · have hfails : unescapeInPlace s (refusing raw) = _ :=
        h.unescapeInPlace_fault hfault (.inl hn)
      rw [hfails] at hout
      cases hout

/-- Where unknown escapes are kept it does not matter whether they would be dropped. -/
theorem unescapeInPlace_keeping (s : List UInt8) (raw : Bool) :
    unescapeInPlace s ⟨true, true, raw⟩ = unescapeInPlace s (keeping raw) := by
  have hkeeps := lenient_keeping raw
  have hboth : Flags.Lenient ⟨true, true, raw⟩ := .inl rfl
  cases hkeep : unescapeInPlace s (keeping raw) with
  | ok out =>
    obtain ⟨pieces, h, rfl⟩ := (unescapeInPlace_eq_ok_iff hkeeps).1 hkeep
    exact (unescapeInPlace_eq_ok_iff hboth).2 ⟨pieces, h, rfl⟩
  | error e =>
    exact (unescapeInPlace_eq_error_iff hboth).2 ((unescapeInPlace_eq_error_iff hkeeps).1 hkeep)

end

/-- What is done about unknown escapes makes a difference at unknown escapes only. A string that is
read when they are refused is read alike when they are kept or dropped. When they are kept or
dropped the same strings are read, and on all others there is the same fault at the same offset: it
is that of a known escape, the first one that is malformed, and there is a fault when unknown
escapes are refused, too. Keeping goes before dropping. When a string is read with unknown escapes
kept, dropping them writes the same but for the backslash of each of them, and refusing them fails
at the first one. -/
theorem policies_differ_at_unknown_escapes (s : List UInt8) (raw : Bool) :
    (∀ out, unescapeInPlace s (refusing raw) = .ok out →
      unescapeInPlace s (keeping raw) = .ok out ∧ unescapeInPlace s (dropping raw) = .ok out) ∧
    (∀ e, unescapeInPlace s (keeping raw) = .error e ↔
      unescapeInPlace s (dropping raw) = .error e) ∧
    (∀ e, unescapeInPlace s (keeping raw) = .error e ↔ ∃ pieces rest fault,
      Reads raw (CString.content s) pieces (backslash :: rest) ∧ faultOf raw rest = some fault ∧
        e = .error (.invalidFormat fault (sourceOf pieces).length)) ∧
    (∀ e, unescapeInPlace s (keeping raw) = .error e →
      ∃ e', unescapeInPlace s (refusing raw) = .error e') ∧
    unescapeInPlace s ⟨true, true, raw⟩ = unescapeInPlace s (keeping raw) ∧
    ∀ out, unescapeInPlace s (keeping raw) = .ok out → ∃ pieces,
      Reads raw (CString.content s) pieces [] ∧ sourceOf pieces = CString.content s ∧
        out = pieces.flatMap Piece.kept ∧
        unescapeInPlace s (dropping raw) = .ok (pieces.flatMap Piece.dropped) ∧
        (firstUnknown pieces = none → unescapeInPlace s (refusing raw) = .ok out) ∧
        ∀ n, firstUnknown pieces = some n →
          unescapeInPlace s (refusing raw) =
            .error (.error (.invalidFormat .unknownEscape n)) := by
  have hkeeps := lenient_keeping raw
  have hdrops := lenient_dropping raw
  have hrefuse : ∀ out, unescapeInPlace s (refusing raw) = .ok out →
      unescapeInPlace s (keeping raw) = .ok out ∧ unescapeInPlace s (dropping raw) = .ok out := by
    intro out hout
    obtain ⟨pieces, h, hn, rfl⟩ := exists_reads_of_refusing hout
    exact ⟨(unescapeInPlace_eq_ok_iff hkeeps).2 ⟨pieces, h, flatMap_dropped_eq_kept hn⟩,
      (unescapeInPlace_eq_ok_iff hdrops).2 ⟨pieces, h, rfl⟩⟩
  refine ⟨hrefuse, ?_, fun e => unescapeInPlace_eq_error_iff hkeeps, ?_,
    unescapeInPlace_keeping s raw, ?_⟩
  · intro e
    exact (unescapeInPlace_eq_error_iff hkeeps).trans (unescapeInPlace_eq_error_iff hdrops).symm
  · intro e he
    cases hanswer : unescapeInPlace s (refusing raw) with
    | ok out =>
      rw [(hrefuse out hanswer).1] at he
      cases he
    | error e' => exact ⟨e', rfl⟩
  · intro out hout
    obtain ⟨pieces, h, rfl⟩ := (unescapeInPlace_eq_ok_iff hkeeps).1 hout
    refine ⟨pieces, h, (List.append_nil _).symm.trans h.source_append, rfl,
      (unescapeInPlace_eq_ok_iff hdrops).2 ⟨pieces, h, rfl⟩, ?_, ?_⟩
    · intro hnone
      have hread : unescapeInPlace s (refusing raw) =
          .ok (pieces.flatMap (Piece.written (refusing raw))) :=
        Reads.unescapeInPlace_ok h (.inl hnone)
      rw [hread]
      exact congrArg Except.ok (flatMap_dropped_eq_kept hnone)
    · intro n hn
      exact h.unescapeInPlace_unknown hn

/-- A letter that begins no escape, with and without a hexadecimal escape that lacks its digits
behind it. -/
theorem policies_differ_sample :
    unescapeInPlace [92, 113] ⟨true, true, false⟩ = .ok [92, 113] ∧
      unescapeInPlace [92, 113, 92, 120] (dropping false) =
        .error (.error (.invalidFormat .missingHexDigits 2)) := by
  have hletter : Reads false [92, 113] [.unknown [113]] [] :=
    @Reads.unknown _ [113] _ _ _ rfl rfl (.stop [])
  have hboth : Reads false [92, 113, 92, 120] [.unknown [113]] (backslash :: [120]) :=
    @Reads.unknown _ [113] _ _ _ rfl rfl (.stop _)
  have hkeep : unescapeInPlace [92, 113] (keeping false) = .ok [92, 113] :=
    (unescapeInPlace_eq_ok_iff (lenient_keeping false)).2 ⟨_, hletter, rfl⟩
  obtain ⟨-, -, -, -, hkeeping, -⟩ := policies_differ_at_unknown_escapes [92, 113] false
  obtain ⟨-, halike, hfault, -⟩ := policies_differ_at_unknown_escapes [92, 113, 92, 120] false
  exact ⟨hkeeping.trans hkeep, (halike _).1 ((hfault _).2 ⟨_, _, _, hboth, rfl, rfl⟩)⟩

end CText.Escape
