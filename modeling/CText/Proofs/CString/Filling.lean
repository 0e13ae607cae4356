import CText.Byte
import CText.Proofs.CString.Building
import Mathlib.Data.List.Basic
import Mathlib.Data.List.Induction

/-!
# Filling a buffer piece by piece

There are three ways to put strings together in one buffer: to copy the first and join the others,
to copy each behind the one before, and to copy and join no more than fits. As long as everything
fits they leave the same buffer. Where it does not, the first two break off at the same piece with
the earlier ones in place, and the third goes on with a text that is cut.
-/

namespace CText.Byte

open CString

variable {dest text : List UInt8} {pieces : List (List UInt8)}

/-- The strings in some buffers, one behind the other. -/
def joined (pieces : List (List UInt8)) : List UInt8 := pieces.flatMap content

/-- A buffer with a text at its start and a terminator behind the text. -/
def holding (dest text : List UInt8) : List UInt8 :=
  text ++ CodeUnit.nul :: dest.drop (text.length + 1)

/-- What a buffer holds once some strings have been put together in it. It is as it was as long as
there are none. -/
def built (dest : List UInt8) (pieces : List (List UInt8)) : List UInt8 :=
  if pieces = [] then dest else holding dest (joined pieces)

/-- A call that writes to a buffer. It is told what the call before it answered, and it breaks a
promise, which leaves the buffer as it is, or leaves a buffer and an answer. -/
abbrev Write := List UInt8 → Nat → Except Violation (List UInt8 × Nat)

/-- What calls on one buffer left: the buffer, the answers, and the promise at which they broke off
if one was broken. -/
structure Filled where
  buffer : List UInt8
  answers : List Nat
  broken : Option Violation
  deriving DecidableEq

def Filled.behind (answers : List Nat) (f : Filled) : Filled :=
  { f with answers := answers ++ f.answers }

/-- Makes calls one after the other, up to the first that breaks a promise. -/
def runWrites : List Write → List UInt8 → Nat → Filled
  | [], dest, _ => ⟨dest, [], none⟩
  | write :: writes, dest, last => match write dest last with
    | .error v => ⟨dest, [], some v⟩
    | .ok (dest, answer) => (runWrites writes dest answer).behind [answer]

/-- One call for the first piece, and another one for each of the others. -/
def writesFor (first next : List UInt8 → Write) : List (List UInt8) → List Write
  | [] => []
  | piece :: others => first piece :: others.map next

/-- Copies a string to offset `e` of the buffer; answers where its terminator is. -/
def stpcpyAt (piece : List UInt8) : Write := fun dest e => do
  let (rest, length) ← stpcpy (← Buffer.slice dest e dest.length) piece
  return (dest.take e ++ rest, e + length)

/-- Copies the first string and joins the others to it. -/
def byJoining (dest : List UInt8) (pieces : List (List UInt8)) : Filled :=
  runWrites (writesFor (fun piece dest _ => strcpy dest piece)
    (fun piece dest _ => strcat dest piece) pieces) dest 0

/-- Copies each string to where the terminator of the one before it is. -/
def byStepping (dest : List UInt8) (pieces : List (List UInt8)) : Filled :=
  runWrites (writesFor stpcpyAt stpcpyAt pieces) dest 0

/-- Copies the first string and joins the others to it, as far as there is room. -/
def byCutting (dest : List UInt8) (pieces : List (List UInt8)) : Filled :=
  runWrites (writesFor (fun piece dest _ => .ok (strlcpy dest piece))
    (fun piece dest _ => .ok (strlcat dest piece)) pieces) dest 0

theorem nul_notMem_joined (pieces : List (List UInt8)) : CodeUnit.nul ∉ joined pieces := by
  intro h
  obtain ⟨piece, _, hmem⟩ := List.mem_flatMap.1 h
  exact nul_notMem_content piece hmem

theorem joined_cons (piece : List UInt8) (others : List (List UInt8)) :
    joined (piece :: others) = content piece ++ joined others :=
  List.flatMap_cons

theorem joined_concat (earlier : List (List UInt8)) (piece : List UInt8) :
    joined (earlier ++ [piece]) = joined earlier ++ content piece := by
  simp [joined]

theorem holding_eq_overwrite (dest text : List UInt8) :
    holding dest text = Buffer.overwrite dest 0 (text ++ [CodeUnit.nul]) := by
  simp [holding, Buffer.overwrite]

theorem length_holding (h : text.length < dest.length) :
    (holding dest text).length = dest.length := by
  simp only [holding, List.length_append, List.length_cons, List.length_drop]
  omega

theorem content_holding (h : CodeUnit.nul ∉ text) : content (holding dest text) = text := by
  rw [holding, content_append h, content_cons_nul, List.append_nil]

/-- A piece written over the terminator goes on with the text. -/
theorem overwrite_holding (dest text more : List UInt8) :
    Buffer.overwrite (holding dest text) text.length (more ++ [CodeUnit.nul]) =
      holding dest (text ++ more) := by
  have hfront : (holding dest text).take text.length = text := List.take_left
  have hback : (holding dest text).drop (text.length + (more ++ [CodeUnit.nul]).length) =
      dest.drop ((text ++ more).length + 1) := by
    rw [holding, List.drop_length_add_append, List.length_append, List.length_singleton,
      List.drop_succ_cons, List.drop_drop, List.length_append]
    congr 1
    omega
  rw [Buffer.overwrite, hfront, hback, holding]
  simp

section Runs

variable {write : Write} {writes : List Write} {buffer next : List UInt8} {answers : List Nat}
  {last answer : Nat} {v : Violation}

theorem runWrites_ok (h : write dest last = .ok (next, answer)) (writes : List Write) :
    runWrites (write :: writes) dest last = (runWrites writes next answer).behind [answer] := by
  rw [runWrites, h]

theorem runWrites_error (h : write dest last = .error v) (writes : List Write) :
    runWrites (write :: writes) dest last = ⟨dest, [], some v⟩ := by
  rw [runWrites, h]

/-- Calls that break no promise are followed by the others. -/
theorem runWrites_append (h : runWrites writes dest last = ⟨buffer, answers, none⟩)
    (more : List Write) :
    runWrites (writes ++ more) dest last =
      (runWrites more buffer (answers.getLastD last)).behind answers := by
  induction writes generalizing dest last answers with
  | nil =>
    cases h
    rfl
  | cons write writes ih =>
    rw [List.cons_append]
    rcases hwrite : write dest last with v | ⟨next, answer⟩
    · rw [runWrites_error hwrite] at h
      cases h
    · rw [runWrites_ok hwrite] at h ⊢
      obtain ⟨others, broken, hrest⟩ : ∃ others broken,
          runWrites writes next answer = ⟨buffer, others, broken⟩ ∧
            answers = answer :: others ∧ broken = none := by
        cases hrest : runWrites writes next answer with
        | mk b others broken =>
          rw [hrest] at h
          cases h
          exact ⟨others, none, rfl, rfl, rfl⟩
      obtain ⟨hrest, rfl, rfl⟩ := hrest
      rw [ih hrest, List.getLastD_cons]
      rfl

end Runs

/-- Calls that insist on room for the whole of each piece. What the next call relies on of the text
in place and the answer before is `tracks`. -/
structure Strict (dest : List UInt8) (first next : List UInt8 → Write)
    (tracks : List UInt8 → Nat → Prop) : Prop where
  first_fits : ∀ piece, (content piece).length < dest.length →
    ∃ answer, first piece dest 0 = .ok (holding dest (content piece), answer) ∧
      tracks (content piece) answer
  first_breaks : ∀ piece, dest.length ≤ (content piece).length →
    ∃ v, first piece dest 0 = .error v
  next_fits : ∀ text piece last, CodeUnit.nul ∉ text → tracks text last →
    (text ++ content piece).length < dest.length →
    ∃ answer, next piece (holding dest text) last =
        .ok (holding dest (text ++ content piece), answer) ∧
      tracks (text ++ content piece) answer
  next_breaks : ∀ text piece last, CodeUnit.nul ∉ text → tracks text last →
    text.length < dest.length → dest.length ≤ (text ++ content piece).length →
    ∃ v, next piece (holding dest text) last = .error v

namespace Strict

variable {first next : List UInt8 → Write} {tracks : List UInt8 → Nat → Prop}

/-- While the pieces fit, each is put behind the text. -/
theorem run_next (h : Strict dest first next tracks) {last : Nat} (hnul : CodeUnit.nul ∉ text)
    (hlast : tracks text last) (hfits : (text ++ joined pieces).length < dest.length) :
    ∃ answers, runWrites (pieces.map next) (holding dest text) last =
        ⟨holding dest (text ++ joined pieces), answers, none⟩ ∧
      answers.length = pieces.length ∧ tracks (text ++ joined pieces) (answers.getLastD last) := by
  induction pieces generalizing text last with
  | nil =>
    refine ⟨[], ?_, rfl, ?_⟩
    · rw [joined, List.flatMap_nil, List.append_nil]
      rfl
    · simpa [joined] using hlast
  | cons piece others ih =>
    rw [joined_cons, ← List.append_assoc] at hfits ⊢
    have hpiece : (text ++ content piece).length < dest.length := by
      rw [List.length_append] at hfits
      omega
    obtain ⟨answer, hwrite, htracks⟩ := h.next_fits text piece last hnul hlast hpiece
    have hnul' : CodeUnit.nul ∉ text ++ content piece := by
      simp [hnul, nul_notMem_content]
    obtain ⟨answers, hrun, hlen, hend⟩ := ih hnul' htracks hfits
    refine ⟨answer :: answers, ?_, by simp [hlen], ?_⟩
    · rw [List.map_cons, runWrites_ok hwrite, hrun]
      rfl
    · rwa [List.getLastD_cons]

/-- Pieces that all fit end up one behind the other. -/
theorem fits (h : Strict dest first next tracks) (hfits : (joined pieces).length < dest.length) :
    ∃ answers, runWrites (writesFor first next pieces) dest 0 =
        ⟨built dest pieces, answers, none⟩ ∧ answers.length = pieces.length ∧
      (pieces ≠ [] → tracks (joined pieces) (answers.getLastD 0)) := by
  cases pieces with
  | nil => exact ⟨[], rfl, rfl, fun hne => absurd rfl hne⟩
  | cons piece others =>
    rw [joined_cons] at hfits
    have hpiece : (content piece).length < dest.length := by
      rw [List.length_append] at hfits
      omega
    obtain ⟨answer, hwrite, htracks⟩ := h.first_fits piece hpiece
    obtain ⟨answers, hrun, hlen, hend⟩ := h.run_next (nul_notMem_content piece) htracks hfits
    refine ⟨answer :: answers, ?_, by simp [hlen], fun _ => ?_⟩
    · rw [writesFor, runWrites_ok hwrite, hrun, built, if_neg (List.cons_ne_nil _ _), joined_cons]
      rfl
    · rwa [List.getLastD_cons, joined_cons]

/-- The first piece that does not fit breaks the calls off, with the earlier ones in place. -/
theorem breaks (h : Strict dest first next tracks) {earlier later : List (List UInt8)}
    {piece : List UInt8} (hfits : (joined earlier).length < dest.length)
    (hbreaks : dest.length ≤ (joined (earlier ++ [piece])).length) :
    ∃ answers v, runWrites (writesFor first next (earlier ++ piece :: later)) dest 0 =
        ⟨built dest earlier, answers, some v⟩ ∧ answers.length = earlier.length := by
  rw [joined_concat] at hbreaks
  cases earlier with
  | nil =>
    obtain ⟨v, hwrite⟩ := h.first_breaks piece hbreaks
    exact ⟨[], v, runWrites_error hwrite _, rfl⟩
  | cons start others =>
    obtain ⟨answers, hrun, hlen, htracks⟩ := h.fits hfits
    obtain ⟨v, hwrite⟩ := h.next_breaks _ piece _ (nul_notMem_joined _)
      (htracks (List.cons_ne_nil _ _)) hfits hbreaks
    have hwrites : writesFor first next (start :: others ++ piece :: later) =
        writesFor first next (start :: others) ++ next piece :: later.map next := by
      simp [writesFor]
    refine ⟨answers, v, ?_, hlen⟩
    rw [built, if_neg (List.cons_ne_nil _ _)] at hrun ⊢
    rw [hwrites, runWrites_append hrun, runWrites_error hwrite]
    simp [Filled.behind]

end Strict

theorem strcpy_eq (dest piece : List UInt8) :
    strcpy dest piece =
      if (content piece).length < dest.length then
        .ok (holding dest (content piece), (content piece).length + 1)
      else .error (.noRoomToCopy "strcpy" dest.length (content piece).length) := by
  rw [strcpy, copy_eq, ← holding_eq_overwrite]
  split <;> rfl

theorem strcat_holding (hnul : CodeUnit.nul ∉ text) (htext : text.length < dest.length)
    (piece : List UInt8) :
    strcat (holding dest text) piece =
      if (text ++ content piece).length < dest.length then
        .ok (holding dest (text ++ content piece), (text ++ content piece).length)
      else .error (.noRoomToAppend "strcat" dest.length (text ++ content piece).length) := by
  rw [strcat, append_whole, content_holding hnul, length_holding htext, overwrite_holding,
    List.length_append]

/-- Copying to an offset writes there if there is room for the whole of the string. -/
theorem stpcpyAt_eq {e : Nat} (h : e ≤ dest.length) (piece : List UInt8) :
    stpcpyAt piece dest e =
      if e + (content piece).length < dest.length then
        .ok (Buffer.overwrite dest e (content piece ++ [CodeUnit.nul]),
          e + (content piece).length)
      else .error (.noRoomToCopy "stpcpy" (dest.length - e) (content piece).length) := by
  have hrest : (dest.drop e).take (dest.length - e) = dest.drop e := by
    rw [← List.length_drop, List.take_length]
  have hlen : (dest.drop e).length = dest.length - e := List.length_drop
  rw [stpcpyAt, Buffer.slice_eq h (Nat.le_refl _), hrest]
  simp only [bind, Except.bind, stpcpy, copy_eq, hlen]
  by_cases hroom : e + (content piece).length < dest.length
  · rw [if_pos hroom, if_pos (by omega)]
    simp [Buffer.overwrite, pure, Except.pure]
  · rw [if_neg hroom, if_neg (by omega)]

theorem strict_joining (dest : List UInt8) :
    Strict dest (fun piece dest _ => strcpy dest piece) (fun piece dest _ => strcat dest piece)
      fun _ _ => True where
  first_fits piece h := by
    refine ⟨(content piece).length + 1, ?_, trivial⟩
    rw [strcpy_eq, if_pos h]
  first_breaks piece h := by
    rw [strcpy_eq, if_neg (by omega)]
    exact ⟨_, rfl⟩
  next_fits text piece last hnul _ h := by
    refine ⟨(text ++ content piece).length, ?_, trivial⟩
    rw [strcat_holding hnul (by rw [List.length_append] at h; omega), if_pos h]
  next_breaks text piece last hnul _ htext h := by
    rw [strcat_holding hnul htext, if_neg (by omega)]
    exact ⟨_, rfl⟩

/-- Here the next call relies on the answer before: it is the length of the text in place. -/
theorem strict_stepping (dest : List UInt8) :
    Strict dest stpcpyAt stpcpyAt fun text last => last = text.length where
  first_fits piece h := by
    refine ⟨(content piece).length, ?_, rfl⟩
    rw [stpcpyAt_eq (Nat.zero_le _), Nat.zero_add, if_pos h, holding_eq_overwrite]
  first_breaks piece h := by
    rw [stpcpyAt_eq (Nat.zero_le _), if_neg (by omega)]
    exact ⟨_, rfl⟩
  next_fits text piece last _ hlast h := by
    subst hlast
    refine ⟨(text ++ content piece).length, ?_, rfl⟩
    rw [List.length_append] at h ⊢
    have hlen : (holding dest text).length = dest.length := length_holding (by omega)
    rw [stpcpyAt_eq (by omega), hlen, if_pos h, overwrite_holding]
  next_breaks text piece last _ hlast htext h := by
    subst hlast
    rw [List.length_append] at h
    have hlen := length_holding htext
    rw [stpcpyAt_eq (by omega), hlen, if_neg (by omega)]
    exact ⟨_, rfl⟩

theorem strlcpy_eq (hdest : 0 < dest.length) (piece : List UInt8) :
    strlcpy dest piece =
      (holding dest ((content piece).take (dest.length - 1)), (content piece).length) := by
  rw [strlcpy, copyCut_eq, if_neg (by omega), ← holding_eq_overwrite]

theorem strlcat_holding (hnul : CodeUnit.nul ∉ text) (htext : text.length < dest.length)
    (piece : List UInt8) :
    strlcat (holding dest text) piece =
      (holding dest ((text ++ content piece).take (dest.length - 1)),
        (text ++ content piece).length) := by
  have hcut : text ++ (content piece).take (dest.length - 1 - text.length) =
      (text ++ content piece).take (dest.length - 1) := by
    have hall : text.take (dest.length - 1) = text := List.take_of_length_le (by omega)
    rw [List.take_append, hall]
  rw [strlcat, appendCut_eq, content_holding hnul, length_holding htext, if_neg (by omega),
    overwrite_holding, hcut, List.length_append]

/-- To cut on the way and at the end is to cut at the end. -/
theorem take_take_append (n : Nat) (s t : List UInt8) :
    (s.take n ++ t).take n = (s ++ t).take n := by
  have hrest : n - (s.take n).length = n - s.length := by
    rw [List.length_take]
    omega
  rw [List.take_append, List.take_append, List.take_take, Nat.min_self, hrest]

/-- Joining what fits, piece after piece, cuts the whole where the room ends. A call answers with
more than there is room for exactly if something was cut. -/
theorem run_cutting {last : Nat} (hnul : CodeUnit.nul ∉ text) (htext : text.length < dest.length) :
    ∃ answers,
      runWrites (pieces.map fun piece dest _ => .ok (strlcat dest piece)) (holding dest text) last =
        ⟨holding dest ((text ++ joined pieces).take (dest.length - 1)), answers, none⟩ ∧
      ((∃ answer ∈ answers, dest.length ≤ answer) ↔
        dest.length ≤ (text ++ joined pieces).length) := by
  induction pieces generalizing text last with
  | nil =>
    have hwhole : text.take (dest.length - 1) = text := List.take_of_length_le (by omega)
    refine ⟨[], ?_, ?_⟩
    · rw [joined, List.flatMap_nil, List.append_nil, hwhole]
      rfl
    · simp [joined, htext]
  | cons piece others ih =>
    have hcut : CodeUnit.nul ∉ (text ++ content piece).take (dest.length - 1) := by
      intro h
      rcases List.mem_append.1 (List.mem_of_mem_take h) with h | h
      · exact hnul h
      · exact nul_notMem_content piece h
    have hlen : ((text ++ content piece).take (dest.length - 1)).length < dest.length := by
      rw [List.length_take]
      omega
    obtain ⟨answers, hrun, hanswers⟩ := @ih _ (text ++ content piece).length hcut hlen
    rw [take_take_append, List.append_assoc, ← joined_cons] at hrun
    refine ⟨(text ++ content piece).length :: answers, ?_, ?_⟩
    · rw [List.map_cons, runWrites_ok (congrArg _ (strlcat_holding hnul htext piece)), hrun]
      rfl
    · rw [joined_cons, ← List.append_assoc]
      by_cases hfits : (text ++ content piece).length < dest.length
      · have hwhole : (text ++ content piece).take (dest.length - 1) = text ++ content piece :=
          List.take_of_length_le (by omega)
        rw [hwhole] at hanswers
        rw [List.exists_mem_cons_iff, hanswers, or_iff_right (by omega)]
      · constructor
        · intro _
          rw [List.length_append]
          omega
        · intro _
          exact ⟨_, List.mem_cons_self, by omega⟩

/-- Cutting puts as much of the pieces into the buffer as it has room for. -/
theorem byCutting_eq (hdest : 0 < dest.length) (hpieces : pieces ≠ []) :
    ∃ answers, byCutting dest pieces =
        ⟨holding dest ((joined pieces).take (dest.length - 1)), answers, none⟩ ∧
      ((∃ answer ∈ answers, dest.length ≤ answer) ↔ dest.length ≤ (joined pieces).length) := by
  obtain ⟨piece, others, rfl⟩ := List.exists_cons_of_ne_nil hpieces
  obtain ⟨answers, hrun, hanswers⟩ := @run_cutting dest [] (piece :: others) 0 List.not_mem_nil hdest
  refine ⟨answers, ?_, hanswers⟩
  -- To copy the first piece is to join it to the empty string.
  rw [List.map_cons, runWrites_ok (congrArg _ (strlcat_holding List.not_mem_nil hdest piece))] at hrun
  rw [byCutting, writesFor, runWrites_ok (congrArg _ (strlcpy_eq hdest piece))]
  exact hrun

/-- A whole that does not fit has a first piece at which it shows. -/
theorem exists_overflow {room : Nat} (hroom : 0 < room) (h : room ≤ (joined pieces).length) :
    ∃ earlier piece later, pieces = earlier ++ piece :: later ∧
      (joined earlier).length < room ∧ room ≤ (joined (earlier ++ [piece])).length := by
  induction pieces using List.reverseRecOn with
  | nil =>
    rw [joined, List.flatMap_nil, List.length_nil] at h
    omega
  | append_singleton others piece ih =>
    by_cases hothers : room ≤ (joined others).length
    · obtain ⟨earlier, first, later, rfl, hfits, hbreaks⟩ := ih hothers
      exact ⟨earlier, first, later ++ [piece], by simp, hfits, hbreaks⟩
    · exact ⟨others, piece, [], rfl, by omega, h⟩

/-- The stores of a cutting copy all lie in the buffer. -/
theorem storeAll_strlcpy (hdest : 0 < dest.length) (piece : List UInt8) :
    Buffer.storeAll dest 0 ((content piece).take (dest.length - 1) ++ [CodeUnit.nul]) =
      .ok (strlcpy dest piece).1 := by
  have hroom : 0 + ((content piece).take (dest.length - 1) ++ [CodeUnit.nul]).length ≤
      dest.length := by
    rw [List.length_append, List.length_take, List.length_singleton]
    omega
  rw [Buffer.storeAll_eq hroom, strlcpy_eq hdest, holding_eq_overwrite]

/-- The stores of a cutting join all lie in the buffer. -/
theorem storeAll_strlcat (hdest : (content dest).length < dest.length) (piece : List UInt8) :
    Buffer.storeAll dest (content dest).length
        ((content piece).take (dest.length - 1 - (content dest).length) ++ [CodeUnit.nul]) =
      .ok (strlcat dest piece).1 := by
  have hroom : (content dest).length +
      ((content piece).take (dest.length - 1 - (content dest).length) ++ [CodeUnit.nul]).length ≤
        dest.length := by
    rw [List.length_append, List.length_take, List.length_singleton]
    omega
  rw [Buffer.storeAll_eq hroom, strlcat, appendCut_eq, if_neg (by omega)]

/-- Three ways to put strings together in a buffer. If the whole fits with its terminator, they
leave the same buffer: the whole at the start, the terminator, and behind it what was there before.
The offset that the second ends with is the length of the whole, and no call of the third answers
with more than there is room for.

If it does not fit, the first two ways break off at the same piece, the first one at which the room
is used up, and leave what the earlier pieces made. The third breaks no promise and leaves as much
of the whole as there is room for, and one of its calls tells. What its calls do are stores that
are all inside the buffer. -/
theorem three_ways_agree (dest : List UInt8) (pieces : List (List UInt8))
    (hdest : 0 < dest.length) (hpieces : pieces ≠ []) :
    ((joined pieces).length < dest.length →
      (∃ answers, byJoining dest pieces = ⟨holding dest (joined pieces), answers, none⟩) ∧
      (∃ answers, byStepping dest pieces = ⟨holding dest (joined pieces), answers, none⟩ ∧
        answers.getLast? = some (joined pieces).length) ∧
      ∃ answers, byCutting dest pieces = ⟨holding dest (joined pieces), answers, none⟩ ∧
        ∀ answer ∈ answers, answer < dest.length) ∧
    (dest.length ≤ (joined pieces).length →
      (∃ earlier piece later, pieces = earlier ++ piece :: later ∧
        (joined earlier).length < dest.length ∧
        dest.length ≤ (joined (earlier ++ [piece])).length ∧
        (∃ answers v, byJoining dest pieces = ⟨built dest earlier, answers, some v⟩ ∧
          answers.length = earlier.length) ∧
        ∃ answers v, byStepping dest pieces = ⟨built dest earlier, answers, some v⟩ ∧
          answers.length = earlier.length) ∧
      ∃ answers, byCutting dest pieces =
          ⟨holding dest ((joined pieces).take (dest.length - 1)), answers, none⟩ ∧
        ∃ answer ∈ answers, dest.length ≤ answer) ∧
    ∀ buffer piece : List UInt8,
      (0 < buffer.length →
        Buffer.storeAll buffer 0 ((content piece).take (buffer.length - 1) ++ [CodeUnit.nul]) =
          .ok (strlcpy buffer piece).1) ∧
      ((content buffer).length < buffer.length →
        Buffer.storeAll buffer (content buffer).length
            ((content piece).take (buffer.length - 1 - (content buffer).length) ++
              [CodeUnit.nul]) =
          .ok (strlcat buffer piece).1) := by
  obtain ⟨cuts, hcutting, hcuts⟩ := byCutting_eq hdest hpieces
  refine ⟨?_, ?_, fun buffer piece =>
    ⟨fun h => storeAll_strlcpy h piece, fun h => storeAll_strlcat h piece⟩⟩
  · intro hfits
    obtain ⟨joins, hjoining, _, _⟩ := (strict_joining dest).fits hfits
    obtain ⟨steps, hstepping, hlen, hlast⟩ := (strict_stepping dest).fits hfits
    have hbuilt : built dest pieces = holding dest (joined pieces) := if_neg hpieces
    have hwhole : (joined pieces).take (dest.length - 1) = joined pieces :=
      List.take_of_length_le (by omega)
    rw [hbuilt] at hjoining hstepping
    rw [hwhole] at hcutting
    refine ⟨⟨joins, hjoining⟩, ⟨steps, hstepping, ?_⟩, cuts, hcutting, ?_⟩
    · have hend := hlast hpieces
      cases steps with
      | nil => exact absurd (List.length_eq_zero_iff.1 hlen.symm) hpieces
      | cons first others =>
        rw [List.getLast?_cons, ← hend, List.getLastD_cons, List.getLastD_eq_getLast?]
    · intro answer hanswer
      by_contra hover
      have hsome := hcuts.1 ⟨answer, hanswer, by omega⟩
      omega
  · intro hover
    obtain ⟨earlier, piece, later, rfl, hfits, hbreaks⟩ := exists_overflow hdest hover
    exact ⟨⟨earlier, piece, later, rfl, hfits, hbreaks, (strict_joining dest).breaks hfits hbreaks,
      (strict_stepping dest).breaks hfits hbreaks⟩, cuts, hcutting, hcuts.2 hover⟩

/-- Three pieces, the second of them empty, and room for two bytes: the third piece is cut, and the
call for it answers with the length that the whole would have. -/
theorem three_ways_sample :
    (∃ earlier piece later, [[97, 0, 7], [], [98, 99]] = earlier ++ piece :: later ∧
        (joined earlier).length < 3 ∧ 3 ≤ (joined (earlier ++ [piece])).length ∧
        (∃ answers v, byJoining [9, 9, 9] [[97, 0, 7], [], [98, 99]] =
            ⟨built [9, 9, 9] earlier, answers, some v⟩ ∧ answers.length = earlier.length) ∧
        ∃ answers v, byStepping [9, 9, 9] [[97, 0, 7], [], [98, 99]] =
            ⟨built [9, 9, 9] earlier, answers, some v⟩ ∧ answers.length = earlier.length) ∧
      ∃ answers, byCutting [9, 9, 9] [[97, 0, 7], [], [98, 99]] = ⟨[97, 98, 0], answers, none⟩ ∧
        ∃ answer ∈ answers, 3 ≤ answer :=
  (three_ways_agree [9, 9, 9] [[97, 0, 7], [], [98, 99]] (by decide) (by decide)).2.1 (by decide)

end CText.Byte
