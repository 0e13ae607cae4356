import CText.Text.Utf8
import Mathlib.Logic.Function.Defs
import Mathlib.Tactic.SplitIfs

/-!
# Texts are read back from their bytes

A character is read back from its bytes, whatever follows them, and so is a text, and no other bytes
are read as it. Repairing what is a text changes nothing. A byte of ASCII stands in no character but
its own.
-/

namespace CText.Utf8

theorem scalar?_toNat (c : Char) : scalar? c.toNat = some c := by
  have valid : c.toNat.isValidChar := c.valid
  rw [scalar?, dif_pos valid]
  rfl

theorem checked?_toNat {c : Char} {least : Nat} (h : least ≤ c.toNat) :
    checked? least c.toNat = some c := by
  rw [checked?, if_pos h, scalar?_toNat]

theorem toNat_toUInt8 {n : Nat} (h : n < 256) : n.toUInt8.toNat = n :=
  Nat.mod_eq_of_lt h

theorem continuation?_toUInt8 {n : Nat} (h : n < 64) :
    continuation? (0x80 + n).toUInt8 = some n := by
  rw [continuation?, toNat_toUInt8 (by omega), if_pos (by omega), Nat.add_sub_cancel_left]

theorem toNat_lt (c : Char) : c.toNat < 0x110000 := by
  rcases c.valid with h | ⟨-, h⟩
  · exact Nat.lt_trans h (by decide)
  · exact h

/-- A character is the first one of its bytes and takes all of them. -/
theorem decodeChar?_encodeChar (c : Char) (rest : List UInt8) :
    decodeChar? (encodeChar c ++ rest) = some (c, (encodeChar c).length) := by
  have hlt := toNat_lt c
  have low (m : Nat) : m % 64 < 64 := Nat.mod_lt m (by decide)
  unfold encodeChar
  dsimp only
  split
  -- one byte
  next h =>
    simp only [List.cons_append, List.nil_append, decodeChar?]
    rw [toNat_toUInt8 (by omega), if_pos h, scalar?_toNat]
    rfl
  split
  -- two bytes
  next =>
    have hjoined : (0xC0 + c.toNat / 64 - 0xC0) * 64 + c.toNat % 64 = c.toNat := by omega
    simp only [List.cons_append, List.nil_append, decodeChar?, continuation?_toUInt8 (low _)]
    rw [toNat_toUInt8 (by omega), if_neg (by omega), if_neg (by omega), if_pos (by omega), hjoined,
      checked?_toNat (by omega)]
    rfl
  split
  -- three bytes
  next =>
    have hjoined : ((0xE0 + c.toNat / 4096 - 0xE0) * 64 + c.toNat / 64 % 64) * 64 + c.toNat % 64 =
        c.toNat := by
      omega
    simp only [List.cons_append, List.nil_append, decodeChar?, continuation?_toUInt8 (low _)]
    rw [toNat_toUInt8 (by omega), if_neg (by omega), if_neg (by omega), if_neg (by omega),
      if_pos (by omega), hjoined, checked?_toNat (by omega)]
    rfl
  -- four bytes
  next =>
    have hjoined : (((0xF0 + c.toNat / 262144 - 0xF0) * 64 + c.toNat / 4096 % 64) * 64 +
        c.toNat / 64 % 64) * 64 + c.toNat % 64 = c.toNat := by
      omega
    simp only [List.cons_append, List.nil_append, decodeChar?, continuation?_toUInt8 (low _)]
    rw [toNat_toUInt8 (by omega), if_neg (by omega), if_neg (by omega), if_neg (by omega),
      if_neg (by omega), if_pos (by omega), hjoined, checked?_toNat (by omega)]
    rfl

theorem encodeChar_ne_nil (c : Char) : encodeChar c ≠ [] := by
  unfold encodeChar
  dsimp only
  repeat' split
  all_goals exact List.cons_ne_nil _ _

theorem decodeFrom_length (taken rest : List UInt8) :
    decodeFrom taken.length (taken ++ rest) = decodeFrom 0 rest := by
  induction taken with
  | nil => rfl
  | cons b taken ih => exact ih

theorem encode_cons (c : Char) (text : List Char) :
    encode (c :: text) = encodeChar c ++ encode text :=
  rfl

theorem encode_append (text more : List Char) :
    encode (text ++ more) = encode text ++ encode more :=
  List.flatMap_append

theorem decode_encode (text : List Char) : decode (encode text) = some text := by
  induction text with
  | nil => rfl
  | cons c text ih =>
    have hchar := decodeChar?_encodeChar c (encode text)
    cases hbytes : encodeChar c with
    | nil => exact absurd hbytes (encodeChar_ne_nil c)
    | cons b others =>
      rw [hbytes, List.cons_append] at hchar
      rw [encode_cons, hbytes, List.cons_append, decode, decodeFrom, hchar]
      dsimp only
      rw [List.length_cons, Nat.add_sub_cancel, decodeFrom_length, ← decode, ih]
      rfl

theorem encode_injective : Function.Injective encode := by
  intro s t h
  have hdecode := decode_encode s
  rw [h, decode_encode] at hdecode
  exact (Option.some.inj hdecode).symm

theorem repairFrom_length (taken rest : List UInt8) :
    repairFrom taken.length (taken ++ rest) = repairFrom 0 rest := by
  induction taken with
  | nil => rfl
  | cons b taken ih => exact ih

theorem repairFrom_encode (text : List Char) : repairFrom 0 (encode text) = text := by
  induction text with
  | nil => rfl
  | cons c text ih =>
    have hchar := decodeChar?_encodeChar c (encode text)
    cases hbytes : encodeChar c with
    | nil => exact absurd hbytes (encodeChar_ne_nil c)
    | cons b others =>
      rw [hbytes, List.cons_append] at hchar
      rw [encode_cons, hbytes, List.cons_append, repairFrom, hchar]
      dsimp only
      rw [List.length_cons, Nat.add_sub_cancel, repairFrom_length, ih]

/-- Where there is a text nothing is replaced. -/
theorem repair_encode (text : List Char) : repair (encode text) = String.ofList text := by
  rw [repair, repairFrom_encode]

theorem encodeChar_of_lt {c : Char} (h : c.toNat < 0x80) : encodeChar c = [c.toNat.toUInt8] :=
  if_pos h

/-- The bytes of a character behind ASCII are all behind ASCII. -/
theorem le_of_mem_encodeChar {c : Char} (hc : 0x80 ≤ c.toNat) :
    ∀ b ∈ encodeChar c, 0x80 ≤ b.toNat := by
  have hlt := toNat_lt c
  have high {n : Nat} (hle : 0x80 ≤ n) (hn : n < 256) : 0x80 ≤ n.toUInt8.toNat := by
    rwa [toNat_toUInt8 hn]
  have tail (n : Nat) : 0x80 ≤ (0x80 + n % 64).toUInt8.toNat := high (by omega) (by omega)
  unfold encodeChar
  dsimp only
  rw [if_neg (by omega)]
  split_ifs
  all_goals simp only [List.forall_mem_cons, List.not_mem_nil, false_imp_iff, implies_true, and_true]
  · exact ⟨high (by omega) (by omega), tail _⟩
  · exact ⟨high (by omega) (by omega), tail _, tail _⟩
  · exact ⟨high (by omega) (by omega), tail _, tail _, tail _⟩

/-- A byte of ASCII stands in no character but its own. -/
theorem encodeChar_eq_of_mem {c : Char} {b : UInt8} (hb : b ∈ encodeChar c)
    (hascii : b.toNat < 0x80) : c.toNat = b.toNat ∧ encodeChar c = [b] := by
  by_cases hc : c.toNat < 0x80
  · rw [encodeChar_of_lt hc, List.mem_singleton] at hb
    subst hb
    exact ⟨(toNat_toUInt8 (by omega)).symm, encodeChar_of_lt hc⟩
  · exact absurd (le_of_mem_encodeChar (Nat.not_lt.1 hc) b hb) (Nat.not_le.2 hascii)

/-- A character of ASCII has no byte in another character. -/
theorem notMem_encodeChar {c mark : Char} (hmark : mark.toNat < 0x80) (hc : c ≠ mark) :
    mark.toNat.toUInt8 ∉ encodeChar c := by
  intro hmem
  have hbyte : mark.toNat.toUInt8.toNat = mark.toNat := toNat_toUInt8 (by omega)
  have heq := (encodeChar_eq_of_mem hmem (by omega)).1
  exact hc (Char.toNat_inj.1 (heq.trans hbyte))

/-- A text is read back from its bytes. -/
theorem text?_bytes (text : String) : text? (bytes text) = some text := by
  rw [text?, bytes, decode_encode, Option.map_some, String.ofList_toList]

/-! ## Bytes that are read as a text -/

theorem toNat_of_scalar? {n : Nat} {c : Char} (h : scalar? n = some c) : c.toNat = n := by
  by_cases hvalid : n.isValidChar
  · rw [scalar?, dif_pos hvalid] at h
    cases h
    rfl
  · rw [scalar?, dif_neg hvalid] at h
    cases h

theorem of_checked? {least n : Nat} {c : Char} (h : checked? least n = some c) :
    least ≤ n ∧ c.toNat = n := by
  unfold checked? at h
  split at h
  next hle => exact ⟨hle, toNat_of_scalar? h⟩
  next => cases h

theorem of_continuation? {b : UInt8} {n : Nat} (h : continuation? b = some n) :
    n < 64 ∧ b.toNat = 0x80 + n := by
  unfold continuation? at h
  split at h
  next hrange =>
    have hn := Option.some.inj h
    omega
  next => cases h

theorem toUInt8_eq {n : Nat} {b : UInt8} (h : n = b.toNat) : n.toUInt8 = b := by
  rw [h]
  exact UInt8.ofNat_toNat

/-- A character is read off bytes that begin with its own. -/
theorem exists_of_decodeChar? {s : List UInt8} {c : Char} {n : Nat}
    (h : decodeChar? s = some (c, n)) :
    n = (encodeChar c).length ∧ ∃ rest, s = encodeChar c ++ rest := by
  revert h
  fun_cases decodeChar? s
  -- one byte
  case case2 a rest hone =>
    intro h
    obtain ⟨c, hc, ⟨⟩⟩ := Option.map_eq_some_iff.1 h
    have hchar := toNat_of_scalar? hc
    rw [encodeChar_of_lt (by omega), toUInt8_eq hchar]
    exact ⟨rfl, rest, rfl⟩
  -- two bytes
  case case6 a h1 h2 b rest y hy htwo =>
    intro h
    obtain ⟨c, hc, ⟨⟩⟩ := Option.map_eq_some_iff.1 h
    obtain ⟨hle, hchar⟩ := of_checked? hc
    obtain ⟨hylt, hb⟩ := of_continuation? hy
    have hbytes : encodeChar c = [a, b] := by
      unfold encodeChar
      dsimp only
      rw [if_neg (by omega), if_pos (by omega), toUInt8_eq (b := a) (by omega),
        toUInt8_eq (b := b) (by omega)]
    rw [hbytes]
    exact ⟨rfl, rest, rfl⟩
  -- three bytes
  case case9 a h1 h2 b y hy h3 d rest z hz hthree =>
    intro h
    obtain ⟨c, hc, ⟨⟩⟩ := Option.map_eq_some_iff.1 h
    obtain ⟨hle, hchar⟩ := of_checked? hc
    obtain ⟨hylt, hb⟩ := of_continuation? hy
    obtain ⟨hzlt, hd⟩ := of_continuation? hz
    have hbytes : encodeChar c = [a, b, d] := by
      unfold encodeChar
      dsimp only
      rw [if_neg (by omega), if_neg (by omega), if_pos (by omega), toUInt8_eq (b := a) (by omega),
        toUInt8_eq (b := b) (by omega), toUInt8_eq (b := d) (by omega)]
    rw [hbytes]
    exact ⟨rfl, rest, rfl⟩
  -- four bytes
  case case12 a h1 h2 b y hy h3 d z hz h4 e rest w hw hfour =>
    intro h
    obtain ⟨c, hc, ⟨⟩⟩ := Option.map_eq_some_iff.1 h
    obtain ⟨hle, hchar⟩ := of_checked? hc
    obtain ⟨hylt, hb⟩ := of_continuation? hy
    obtain ⟨hzlt, hd⟩ := of_continuation? hz
    obtain ⟨hwlt, he⟩ := of_continuation? hw
    have hbytes : encodeChar c = [a, b, d, e] := by
      unfold encodeChar
      dsimp only
      rw [if_neg (by omega), if_neg (by omega), if_neg (by omega), toUInt8_eq (b := a) (by omega),
        toUInt8_eq (b := b) (by omega), toUInt8_eq (b := d) (by omega),
        toUInt8_eq (b := e) (by omega)]
    rw [hbytes]
    exact ⟨rfl, rest, rfl⟩
  all_goals
    intro h
    cases h

theorem encode_of_decode {s : List UInt8} {text : List Char} (h : decode s = some text) :
    encode text = s := by
  induction text generalizing s with
  | nil =>
    rcases s with - | ⟨a, s⟩
    · rfl
    · rw [decode, decodeFrom] at h
      split at h
      · cases h
      · obtain ⟨t, -, ht⟩ := Option.map_eq_some_iff.1 h
        cases ht
  | cons c text ih =>
    rcases s with - | ⟨a, s⟩
    · cases h
    · rw [decode, decodeFrom] at h
      split at h
      · cases h
      next c' n hchar =>
        obtain ⟨t, hrest, ht⟩ := Option.map_eq_some_iff.1 h
        cases ht
        obtain ⟨rfl, rest, hs⟩ := exists_of_decodeChar? hchar
        cases hbytes : encodeChar c with
        | nil => exact absurd hbytes (encodeChar_ne_nil c)
        | cons b others =>
          rw [hbytes, List.cons_append, List.cons.injEq] at hs
          obtain ⟨rfl, rfl⟩ := hs
          rw [hbytes, List.length_cons, Nat.add_sub_cancel, decodeFrom_length, ← decode] at hrest
          rw [encode_cons, hbytes, ih hrest, List.cons_append]

/-- A text is read of no other bytes than its own. -/
theorem bytes_of_text? {s : List UInt8} {text : String} (h : text? s = some text) :
    bytes text = s := by
  obtain ⟨chars, hdecode, rfl⟩ := Option.map_eq_some_iff.1 h
  rw [bytes, String.toList_ofList, encode_of_decode hdecode]

end CText.Utf8
