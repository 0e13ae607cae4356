import CText.Checked.Escape
import CText.Proofs.Checked.CString
import CText.Proofs.Checked.Escape
import CText.Proofs.Reserved.Basic

/-!
# Escaping and unescaping within a reservation

An escaped string is written into its buffer byte by byte, and each byte of the string adds at most
four. Escapes are read in a buffer of the length of the string, which no turn makes longer.
-/

namespace CText

open Escape Buffer

namespace Reserved

/-! ## Writing -/

def encodeFrom (quote : UInt8) (s : List UInt8) (b : Reserved UInt8) (i : Nat) :
    (turns : Nat) → Except Mishap (Reserved UInt8)
  | 0 => return b
  | turns + 1 => do
    if i < s.length then
      let c ← step (checked (fetch s i))
      if modifiedNul.isPrefixOf (← step (checked (Checked.behind s i))) then
        let next ← step (checked (Checked.add i 2))
        encodeFrom quote s (← b.extend (encodeNul (s.drop next))) next turns
      else
        let out ← step (checked (Checked.encodeByte quote c))
        let b ← b.extend out
        encodeFrom quote s b (← step (checked (Checked.add i 1))) turns
    else return b

def escape (s : List UInt8) (quote : UInt8) : Except Mishap (Reserved UInt8) := do
  if quote ≠ 0 ∧ !Ascii.isPunct quote then throw (.failure (.error (.invalidFormat .badQuote 0)))
  else
    let s ← step (checked (Checked.content s))
    if ← step (checked (Checked.isPlain quote s)) then
      let b ← allocate UInt8 1 s.length
      b.extend s
    else
      let b ← allocate UInt8 1 (← step (checked (Checked.mul s.length 4)))
      encodeFrom quote s b 0 s.length

theorem length_encodeNul_le (rest : List UInt8) : (encodeNul rest).length ≤ 4 := by
  unfold encodeNul
  split <;> decide

theorem length_encodeByte_le (quote c : UInt8) : (Escape.encodeByte quote c).length ≤ 4 :=
  (encodeByte_written quote c).length_le

/-- What is added to a buffer piece by piece is added to it as a whole. -/
theorem run_append (front piece : List UInt8) (x : Except Violation (List UInt8)) :
    (checked (x >>= fun rest => pure (piece ++ rest)) >>= fun out => .ok (front ++ out)) =
      checked x >>= fun out => .ok (front ++ piece ++ out) := by
  cases x with
  | error v => rfl
  | ok rest =>
    simp only [List.append_assoc]
    rfl

theorem keepsTo_encodeFrom (quote : UInt8) (s : List UInt8) {b : Reserved UInt8} {i : Nat}
    (turns : Nat) (h : b.units.length + (s.length - i) * 4 ≤ b.capacity) :
    KeepsTo (encodeFrom quote s b i turns)
      (checked (Checked.encodeFrom quote s i turns) >>= fun out => .ok (b.units ++ out))
      b.capacity := by
  induction turns generalizing b i with
  | zero => exact .of_units (List.append_nil b.units).symm
  | succ turns ih =>
    rw [encodeFrom, Checked.encodeFrom]
    by_cases hi : i < s.length
    · -- What is written takes at most four units, and a byte at least is done with.
      have hfits {piece : List UInt8} (hpiece : piece.length ≤ 4) :
          (b.units ++ piece).length ≤ b.capacity := by
        rw [List.length_append]
        omega
      have hturn {next : Nat} {piece : List UInt8} (hpiece : piece.length ≤ 4) (hnext : i < next) :
          KeepsTo (do encodeFrom quote s (← b.extend piece) next turns)
            (checked (Checked.encodeFrom quote s next turns >>= fun rest => pure (piece ++ rest))
              >>= fun out => .ok (b.units ++ out)) b.capacity := by
        rw [extend_eq (hfits hpiece), run_append]
        refine ih (b := ⟨b.capacity, b.units ++ piece, hfits hpiece⟩) ?_
        change (b.units ++ piece).length + (s.length - next) * 4 ≤ b.capacity
        rw [List.length_append]
        omega
      rw [if_pos hi, if_pos hi, Checked.fetch_getElem hi, Checked.behind_eq hi.le]
      simp only [Checked.ok_bind, Checked.checked_ok, step_ok]
      split
      next =>
        cases hadd : Checked.add i 2 with
        | error v => exact .failed _ _
        | ok next =>
          have hnext := yields_add _ _ _ hadd
          exact hturn (length_encodeNul_le _) (by omega)
      next =>
        rw [Checked.encodeByte_eq]
        cases hadd : Checked.add i 1 with
        | error v =>
          simp only [Checked.ok_bind, Checked.checked_ok, step_ok]
          rw [extend_eq (hfits (length_encodeByte_le _ _))]
          exact .failed _ _
        | ok next =>
          have hnext := yields_add _ _ _ hadd
          exact hturn (length_encodeByte_le _ _) (by omega)
    · rw [if_neg hi, if_neg hi]
      exact .of_units (List.append_nil b.units).symm

theorem keepsTo_escape (s : List UInt8) (quote : UInt8) :
    KeepsTo (escape s quote) (Checked.escape s quote) (room quote (CString.content s)) := by
  rw [escape, Checked.escape, Checked.content_eq, room]
  generalize CString.content s = s
  split
  next => exact .failed _ _
  next =>
    simp only [Checked.ok_bind, Checked.checked_ok, step_ok, Checked.isPlain_eq]
    split
    next hplain =>
      refine .allocate ?_
      rw [extend_eq (le_of_eq rfl)]
      exact .filled _
    next hplain =>
      cases hmul : Checked.mul s.length 4 with
      | error v => exact .failed _ _
      | ok size =>
        obtain rfl := yields_mul _ _ _ hmul
        refine .allocate ?_
        have hroom : ([] : List UInt8).length + (s.length - 0) * 4 ≤ s.length * 4 := by simp
        have hencoded := keepsTo_encodeFrom quote s (b := ⟨s.length * 4, [], Nat.zero_le _⟩)
          (i := 0) s.length hroom
        have hwhole : (checked (Checked.encodeFrom quote s 0 s.length) >>= fun out =>
            .ok ([] ++ out)) = checked (Checked.encodeFrom quote s 0 s.length) := by
          cases Checked.encodeFrom quote s 0 s.length <;> rfl
        rwa [hwhole] at hencoded

/-! ## Reading -/

def unescape (s : List UInt8) (flags : Flags) : Except Mishap (Reserved UInt8) := do
  let s ← step (checked (Checked.content s))
  let b ← (← allocate UInt8 1 s.length).extend s
  b.settle (← step (Checked.decodeWithin flags b.units 0 0 b.units.length))

theorem yields_storeAll (buf : List UInt8) (i : Nat) (units : List UInt8) :
    Yields (·.length = buf.length) (storeAll buf i units) :=
  fun _ => length_storeAll

theorem yields_replace (buf : List UInt8) (start stop : Nat) (units : List UInt8) :
    Yields (·.length = buf.length) (Checked.replace buf start stop units) := by
  refine Yields.bind (fun _ => Checked.bounds_of_slice) fun old hbounds => ?_
  obtain ⟨hstop, hle⟩ := hbounds
  split
  next hlen =>
    refine yields_ok ?_
    simp only [List.length_append, List.length_take, List.length_drop]
    omega
  next => exact yields_error _

/-- A turn of decoding leaves the buffer as long as it was. -/
theorem yields_decodeTurn (flags : Flags) (buf : List UInt8) (r w : Nat) :
    Yields (·.1.length = buf.length) (Checked.decodeTurn flags buf r w) := by
  refine yields_bind fun c => ?_
  split
  · refine (yields_store buf w c).checked.bind fun written hwritten => ?_
    exact yields_bind fun _ => yields_bind fun _ => yields_ok hwritten
  · refine yields_bind fun escape => ?_
    split
    next stop =>
      split
      next =>
        have hcopied (stop : Nat) :
            Yields (·.length = buf.length) (slice buf r stop >>= storeAll buf w) :=
          yields_bind fun part => yields_storeAll buf w part
        refine yields_bind fun stop => ?_
        dsimp only
        refine (hcopied _).checked.bind fun written hwritten => ?_
        exact yields_bind fun _ => yields_ok hwritten
      next =>
        split
        next =>
          refine (yields_storeAll buf w _).checked.bind fun written hwritten => ?_
          exact yields_bind fun _ => yields_bind fun _ => yields_ok hwritten
        next => exact yields_error _
    next value stop _ =>
      split
      next => exact yields_error _
      next out _ =>
        refine yields_bind fun outEnd => ?_
        split
        next =>
          refine (yields_replace buf w outEnd out).checked.bind fun written hwritten => ?_
          exact yields_ok hwritten
        next => exact yields_error _

theorem yields_decodeWithin (flags : Flags) (buf : List UInt8) (r w turns : Nat) :
    Yields (·.length ≤ buf.length) (Checked.decodeWithin flags buf r w turns) := by
  induction turns generalizing buf r w with
  | zero => exact yields_take buf w
  | succ turns ih =>
    rw [Checked.decodeWithin]
    split
    · refine (yields_decodeTurn flags buf r w).bind fun next hnext => ?_
      rw [← hnext]
      exact ih next.1 next.2.1 next.2.2
    · exact yields_take buf w

theorem keepsTo_unescape (s : List UInt8) (flags : Flags) :
    KeepsTo (unescape s flags) (Checked.unescape s flags) (CString.content s).length := by
  rw [unescape, Checked.unescape, Checked.content_eq]
  generalize CString.content s = s
  simp only [Checked.ok_bind, Checked.checked_ok, step_ok]
  refine .allocate ?_
  rw [extend_eq (le_of_eq rfl)]
  exact .settle (yields_decodeWithin flags s 0 0 s.length)

end Reserved

end CText
