import CText.Proofs.Escape.InPlace
import CText.Proofs.Text.Utf8

/-!
# Characters and single bytes

What escapes stand for is written as characters or as single bytes. Written as characters it is a
string again: a zero has a form of two bytes that holds none, and whatever form of escape stands for
it is at least as long. Written as single bytes it may hold zeros, and it fails where a character
needs more than a byte, which happens at the first such escape. Both ways read the same escapes and
differ in nothing else.
-/

namespace CText.Escape

variable {flags : Flags} {keep drop : Bool} {rest text out : List UInt8} {value : Value}
  {used k : Nat}

/-! ## The escapes of a text -/

/-- How many bytes after the backslash go with an escape. An unknown one takes the byte behind the
backslash with it, if there is one. -/
def Value.taken (rest : List UInt8) (used : Nat) : Value → Nat
  | .unknown => (rest.take 1).length
  | _ => used

/-- What an escape becomes, an unknown one being kept, dropped or refused. -/
def Value.become (flags : Flags) (rest : List UInt8) : Value → Except Malformed (List UInt8)
  | .unknown =>
    if flags.keepUnknown then .ok (backslash :: rest.take 1)
    else if flags.dropUnknown then .ok (rest.take 1)
    else .error .unknownEscape
  | value => write flags value

/-- Whether a character needs more than a byte. -/
def Value.isWide : Value → Bool
  | .scalar c => 256 ≤ c.toNat
  | _ => false

theorem decodeEscape_eq (h : readEscape rest = .ok (value, used)) :
    decodeEscape flags rest = (value.become flags rest).map (·, value.taken rest used) := by
  cases value with
  | unknown =>
    rw [decodeEscape_unknown h, Value.become]
    split_ifs <;> rfl
  | byte _ | scalar _ => exact decodeEscape_value (by simp) h

/-- An escape is read, and reading goes on behind it. -/
theorem decodeFrom_value (h : readEscape rest = .ok (value, used)) (k : Nat) :
    decodeFrom flags (backslash :: rest) k =
      match value.become flags rest with
      | .error fault => .error (.invalidFormat fault k)
      | .ok out =>
        (decodeFrom flags (rest.drop (value.taken rest used))
          (k + 1 + value.taken rest used)).map (out ++ ·) := by
  have hdecode : decodeEscape flags rest = _ := decodeEscape_eq h
  cases hout : value.become flags rest with
  | error fault =>
    rw [hout] at hdecode
    exact decodeFrom_fault hdecode k
  | ok out =>
    rw [hout] at hdecode
    exact decodeFrom_escape hdecode k

/-- The escapes of a text that begins at an offset, with the offsets of their backslashes, in order
and as far as they are well formed. -/
def escapesFrom (text : List UInt8) (offset : Nat) : List (Nat × Value) :=
  match text with
  | [] => []
  | c :: rest =>
    if c = backslash then
      match readEscape rest with
      | .error _ => []
      | .ok (value, used) =>
        (offset, value) ::
          escapesFrom (rest.drop (value.taken rest used)) (offset + 1 + value.taken rest used)
    else escapesFrom rest (offset + 1)
termination_by text.length
decreasing_by
  · simp only [List.length_drop, List.length_cons]
    omega
  · simp

def escapes (s : List UInt8) : List (Nat × Value) := escapesFrom (CString.content s) 0

/-- What is listed as an escape is one. -/
theorem exists_of_mem_escapesFrom {offset : Nat} (h : (offset, value) ∈ escapesFrom text k) :
    ∃ n rest used, offset = k + n ∧ text.drop n = backslash :: rest ∧
      readEscape rest = .ok (value, used) := by
  fun_induction escapesFrom text k with
  | case1 => cases h
  | case2 => cases h
  | case3 k rest first used hread ih =>
    rcases List.mem_cons.1 h with h | h
    · cases h
      exact ⟨0, rest, used, rfl, rfl, hread⟩
    · obtain ⟨n, behind, m, rfl, hdrop, hescape⟩ := ih h
      rw [List.drop_drop] at hdrop
      exact ⟨first.taken rest used + n + 1, behind, m, by omega, hdrop, hescape⟩
  | case4 k c rest _ ih =>
    obtain ⟨n, behind, m, rfl, hdrop, hescape⟩ := ih h
    exact ⟨n + 1, behind, m, by omega, hdrop, hescape⟩

/-! ## Characters make a string -/

theorem zero_notMem_encodeChar {c : Char} (hc : c.toNat ≠ 0) : 0 ∉ Utf8.encodeChar c :=
  fun h => hc (Utf8.encodeChar_eq_of_mem h (by decide)).1

/-- Nothing that is written as characters holds a zero. -/
theorem Value.zero_notMem_become (hraw : flags.raw = false) (hrest : 0 ∉ rest)
    (h : value.become flags rest = .ok out) : 0 ∉ out := by
  have hnul : (0 : UInt8) ∉ modifiedNul := by decide
  have htake : 0 ∉ rest.take 1 := fun hmem => hrest (List.mem_of_mem_take hmem)
  cases value with
  | byte b =>
    change write flags (.byte b) = .ok out at h
    rw [write, hraw] at h
    cases h
    split_ifs with hb
    · exact hnul
    · rw [List.mem_singleton]
      exact fun hzero => hb ⟨hzero.symm, rfl⟩
  | scalar c =>
    change write flags (.scalar c) = .ok out at h
    rw [write, hraw, if_neg Bool.false_ne_true] at h
    cases h
    split_ifs with hc
    · exact hnul
    · exact zero_notMem_encodeChar hc
  | unknown =>
    rw [Value.become] at h
    split_ifs at h <;> cases h
    · rw [List.mem_cons, not_or]
      exact ⟨by decide, htake⟩
    · exact htake

theorem zero_notMem_decodeEscape (hraw : flags.raw = false) (hrest : 0 ∉ rest)
    (h : decodeEscape flags rest = .ok (out, used)) : 0 ∉ out := by
  cases hread : readEscape rest with
  | error fault =>
    rw [decodeEscape_fault hread] at h
    cases h
  | ok found =>
    rw [decodeEscape_eq hread] at h
    obtain ⟨piece, hpiece, heq⟩ := exists_of_map_eq_ok h
    cases heq
    exact Value.zero_notMem_become hraw hrest hpiece

/-- What is read of a string and written as characters is a string that is not longer. -/
theorem string_of_decodeFrom (hraw : flags.raw = false) (htext : 0 ∉ text)
    (h : decodeFrom flags text k = .ok out) : 0 ∉ out ∧ out.length ≤ text.length := by
  fun_induction decodeFrom flags text k generalizing out with
  | case1 =>
    cases h
    exact ⟨List.not_mem_nil, Nat.le_refl 0⟩
  | case2 => cases h
  | case3 k rest piece used hdecode ih =>
    rw [List.mem_cons, not_or] at htext
    obtain ⟨written, hwritten, rfl⟩ := exists_of_map_eq_ok h
    obtain ⟨hzero, hlen⟩ := ih (fun hmem => htext.2 (List.mem_of_mem_drop hmem)) hwritten
    obtain ⟨hpiece, hused⟩ := decodeEscape_fits hdecode
    rw [List.length_drop] at hlen
    rw [List.mem_append, not_or, List.length_append, List.length_cons]
    exact ⟨⟨zero_notMem_decodeEscape hraw htext.2 hdecode, hzero⟩, by omega⟩
  | case4 k c rest hc ih =>
    rw [List.mem_cons, not_or] at htext
    obtain ⟨written, hwritten, rfl⟩ := exists_of_map_eq_ok h
    obtain ⟨hzero, hlen⟩ := ih htext.2 hwritten
    rw [List.mem_cons, not_or, List.length_cons, List.length_cons]
    exact ⟨⟨htext.1, hzero⟩, Nat.succ_le_succ hlen⟩

/-! ## Both ways side by side -/

/-- What comes of reading a text with single bytes and with characters: an answer each, and then no
escape stands for a wide character; the same fault; or a fault at the first such escape. -/
inductive Compared : (wide : Option (Nat × Value)) → (raw plain : Except Error (List UInt8)) → Prop
  | answers (out out' : List UInt8) : Compared none (.ok out) (.ok out')
  | fault (wide : Option (Nat × Value)) (e : Error) : Compared wide (.error e) (.error e)
  | wide (offset : Nat) (value : Value) (plain : Except Error (List UInt8)) :
      Compared (some (offset, value)) (.error (.invalidFormat .scalarTooLarge offset)) plain

theorem Compared.map {wide : Option (Nat × Value)} {raw plain : Except Error (List UInt8)}
    (h : Compared wide raw plain) (f g : List UInt8 → List UInt8) :
    Compared wide (raw.map f) (plain.map g) := by
  cases h with
  | answers out out' => exact .answers _ _
  | fault wide e => exact .fault _ _
  | wide offset value plain => exact .wide _ _ _

theorem Value.become_wide (h : value.isWide = true) :
    value.become ⟨keep, drop, true⟩ rest = .error .scalarTooLarge := by
  cases value with
  | scalar c =>
    have hc : ¬ c.toNat < 256 := Nat.not_lt.2 (of_decide_eq_true h)
    exact if_neg hc
  | byte _ | unknown => cases h

/-- Any other value is written in both ways or refused in both. -/
theorem Value.become_narrow (h : value.isWide = false) :
    (∃ out out', value.become ⟨keep, drop, true⟩ rest = .ok out ∧
        value.become ⟨keep, drop, false⟩ rest = .ok out') ∨
      ∃ fault, value.become ⟨keep, drop, true⟩ rest = .error fault ∧
        value.become ⟨keep, drop, false⟩ rest = .error fault := by
  cases value with
  | byte b => exact .inl ⟨_, _, rfl, rfl⟩
  | scalar c =>
    have hc : c.toNat < 256 := Nat.not_le.1 (of_decide_eq_false h)
    exact .inl ⟨_, _, if_pos hc, rfl⟩
  | unknown =>
    simp only [Value.become]
    split_ifs
    · exact .inl ⟨_, _, rfl, rfl⟩
    · exact .inl ⟨_, _, rfl, rfl⟩
    · exact .inr ⟨_, rfl, rfl⟩

/-- Both ways go through a text together, to its end or up to the place where one of them fails. -/
theorem compared_decodeFrom (keep drop : Bool) (text : List UInt8) (k : Nat) :
    Compared ((escapesFrom text k).find? (·.2.isWide))
      (decodeFrom ⟨keep, drop, true⟩ text k) (decodeFrom ⟨keep, drop, false⟩ text k) := by
  -- The escapes are found in the steps that both ways take: what is read does not depend on the way.
  fun_induction escapesFrom text k with
  | case1 k =>
    rw [decodeFrom_nil, decodeFrom_nil]
    exact .answers _ _
  | case2 k rest fault hread =>
    rw [decodeFrom_fault (decodeEscape_fault hread), decodeFrom_fault (decodeEscape_fault hread)]
    exact .fault _ _
  | case3 k rest value used hread ih =>
    rw [decodeFrom_value hread, decodeFrom_value hread]
    cases hwide : value.isWide with
    | true =>
      simp only [List.find?_cons, hwide, Value.become_wide hwide]
      exact .wide _ _ _
    | false =>
      simp only [List.find?_cons, hwide]
      rcases Value.become_narrow hwide with ⟨out, out', hraw, hplain⟩ | ⟨fault, hraw, hplain⟩
      · rw [hraw, hplain]
        exact ih.map _ _
      · rw [hraw, hplain]
        exact .fault _ _
  | case4 k c rest hc ih =>
    rw [decodeFrom_plain hc, decodeFrom_plain hc]
    exact ih.map _ _

theorem unescapeInPlace_ok_iff {s : List UInt8} :
    unescapeInPlace s flags = .ok out ↔ decode flags s = .ok out := by
  rw [unescapeInPlace_eq]
  cases decode flags s <;> simp [Except.mapError]

theorem unescapeInPlace_error_iff {s : List UInt8} {e : Failure} :
    unescapeInPlace s flags = .error e ↔ ∃ error, decode flags s = .error error ∧
      e = .error error := by
  rw [unescapeInPlace_eq]
  cases decode flags s <;> simp [Except.mapError, eq_comm]

/-- What is decoded to characters is a string that is not longer than the string it is decoded from.
Whatever is done about unknown escapes, a string that can be decoded to single bytes can be decoded
to characters. If it cannot be decoded to single bytes only, the fault is a character that needs
more than a byte, at the first escape that stands for one. -/
theorem decoded_characters_are_strings (s : List UInt8) :
    (∀ flags : Flags, flags.raw = false → ∀ out, unescapeInPlace s flags = .ok out →
      CodeUnit.nul ∉ out ∧ out.length ≤ (CString.content s).length) ∧
    (∀ keep drop : Bool,
      (∀ out, unescapeInPlace s ⟨keep, drop, true⟩ = .ok out →
        ∃ out', unescapeInPlace s ⟨keep, drop, false⟩ = .ok out') ∧
      ∀ out, unescapeInPlace s ⟨keep, drop, false⟩ = .ok out →
        ∀ e, unescapeInPlace s ⟨keep, drop, true⟩ = .error e ↔
          ∃ offset value, (escapes s).find? (·.2.isWide) = some (offset, value) ∧
            e = .error (.invalidFormat .scalarTooLarge offset)) ∧
    (∀ entry ∈ escapes s, ∃ rest used,
      (CString.content s).drop entry.1 = backslash :: rest ∧
        readEscape rest = .ok (entry.2, used)) ∧
    Malformed.scalarTooLarge.message = "code point above 0xFF in raw mode" := by
  refine ⟨?string, fun keep drop => ⟨?answers, ?fault⟩, ?escapes, rfl⟩
  case string =>
    intro flags hraw out hout
    exact string_of_decodeFrom hraw (CString.nul_notMem_content s) (unescapeInPlace_ok_iff.1 hout)
  case answers =>
    intro out hout
    have hcompared := compared_decodeFrom keep drop (CString.content s) 0
    rw [unescapeInPlace_ok_iff, decode] at hout
    rw [hout] at hcompared
    generalize (escapesFrom (CString.content s) 0).find? (·.2.isWide) = wide at hcompared
    generalize hplain : decodeFrom ⟨keep, drop, false⟩ (CString.content s) 0 = plain at hcompared
    cases hcompared with
    | answers _ out' => exact ⟨out', unescapeInPlace_ok_iff.2 hplain⟩
  case fault =>
    intro out hout e
    have hcompared := compared_decodeFrom keep drop (CString.content s) 0
    rw [unescapeInPlace_ok_iff, decode] at hout
    rw [unescapeInPlace_error_iff, decode, escapes]
    rw [hout] at hcompared
    generalize (escapesFrom (CString.content s) 0).find? (·.2.isWide) = wide at hcompared ⊢
    generalize decodeFrom ⟨keep, drop, true⟩ (CString.content s) 0 = raw at hcompared ⊢
    cases hcompared with
    | answers _ _ => simp
    | wide offset value _ => simp
  case escapes =>
    rintro ⟨offset, value⟩ hmem
    obtain ⟨n, rest, used, rfl, hdrop, hread⟩ := exists_of_mem_escapesFrom hmem
    rw [Nat.zero_add]
    exact ⟨rest, used, hdrop, hread⟩

/-- A zero in front of a character that needs two bytes. -/
theorem decoded_characters_sample :
    unescapeInPlace [92, 48, 92, 117, 48, 49, 48, 48] .plain = .ok [0xC0, 0x80, 0xC4, 0x80] ∧
      CodeUnit.nul ∉ ([0xC0, 0x80, 0xC4, 0x80] : List UInt8) ∧
      unescapeInPlace [92, 48, 92, 117, 48, 49, 48, 48] ⟨false, false, true⟩ =
        .error (.error (.invalidFormat .scalarTooLarge 2)) ∧
      ∃ value,
        (escapes [92, 48, 92, 117, 48, 49, 48, 48]).find? (·.2.isWide) = some (2, value) := by
  have hplain : decode .plain [92, 48, 92, 117, 48, 49, 48, 48] = .ok [0xC0, 0x80, 0xC4, 0x80] := by
    have hzero : decodeEscape .plain [48, 92, 117, 48, 49, 48, 48] = .ok ([0xC0, 0x80], 1) := rfl
    have hwide : decodeEscape .plain [117, 48, 49, 48, 48] = .ok ([0xC4, 0x80], 5) := rfl
    have hend : decodeFrom .plain (backslash :: [117, 48, 49, 48, 48]) 2 = .ok [0xC4, 0x80] :=
      (decodeFrom_escape hwide 2).trans (congrArg _ (decodeFrom_nil 8))
    exact (decodeFrom_escape hzero 0).trans (congrArg _ hend)
  have hraw : decode ⟨false, false, true⟩ [92, 48, 92, 117, 48, 49, 48, 48] =
      .error (.invalidFormat .scalarTooLarge 2) := by
    have hzero : decodeEscape ⟨false, false, true⟩ [48, 92, 117, 48, 49, 48, 48] = .ok ([0], 1) :=
      rfl
    have hwide : decodeEscape ⟨false, false, true⟩ [117, 48, 49, 48, 48] =
        .error .scalarTooLarge := rfl
    exact (decodeFrom_escape hzero 0).trans (congrArg _ (decodeFrom_fault hwide 2))
  have hout := unescapeInPlace_ok_iff.2 hplain
  have hfails := unescapeInPlace_error_iff.2 ⟨_, hraw, rfl⟩
  obtain ⟨hstring, hways, -⟩ := decoded_characters_are_strings [92, 48, 92, 117, 48, 49, 48, 48]
  obtain ⟨offset, value, hfind, he⟩ := ((hways false false).2 _ hout _).1 hfails
  cases he
  exact ⟨hout, (hstring .plain rfl _ hout).1, hfails, value, hfind⟩

end CText.Escape
