import CText.Path.InPlace
import CText.Proofs.Buffer.Searching
import CText.Proofs.Buffer.Writing
import CText.Proofs.Path.Clean

/-!
# Cleaning in place is the walk over the components

In both passes the written part of the buffer is the front of the path and some components joined
by slashes, and it ends before the component that is read next. So a slash and a component find
room without reaching what is still to be read. The first pass keeps the components that are
neither empty nor the dot. The second does to the written components what the walk does to its
stack; its counter is the number of names on the stack.
-/

namespace CText.Path

open Buffer

variable {front part behind buf : List UInt8} {done todo : List (List UInt8)} {r w stop : Nat}

/-- What holds whenever a component is about to be read at `r`: the `w` bytes written so far are
the front of the path and the components of `done`, and they end before `r` unless there are none
of these. -/
structure Writing (front : List UInt8) (done : List (List UInt8)) (buf : List UInt8) (r w : Nat) :
    Prop where
  written : buf.take w = front ++ joinWith slash done
  nil_notMem : [] ∉ done
  inside : w ≤ buf.length
  behind : w ≤ r
  gap : done ≠ [] → w < r

theorem Writing.cursor_eq (h : Writing front done buf r w) :
    w = front.length + (joinWith slash done).length := by
  have hlen := congrArg List.length h.written
  rw [List.length_take, Nat.min_eq_left h.inside, List.length_append] at hlen
  exact hlen

theorem Writing.front_lt_iff (h : Writing front done buf r w) : front.length < w ↔ done ≠ [] := by
  have hw := h.cursor_eq
  have hempty : joinWith slash done = [] ↔ done = [] := joinWith_eq_nil_iff h.nil_notMem
  rw [← List.length_eq_zero_iff] at hempty
  rw [Ne, ← hempty]
  omega

/-- What is written for one more component: the component, behind a slash unless it is the first. -/
def nextPiece (done : List (List UInt8)) (part : List UInt8) : List UInt8 :=
  (if done = [] then [] else [slash]) ++ part

theorem copyDown_eq {start : Nat} (hslice : slice buf start stop = .ok part)
    (hroom : w + part.length ≤ buf.length) :
    copyDown buf start stop w = .ok (overwrite buf w part) := by
  rw [copyDown, hslice]
  exact storeAll_eq hroom

theorem Writing.writeComponent_eq (h : Writing front done buf r w)
    (hslice : slice buf r stop = .ok part) (hstop : stop = r + part.length)
    (hlen : stop ≤ buf.length) (hpart : part ≠ []) :
    writeComponent front.length buf r stop w =
      .ok (overwrite buf w (nextPiece done part), w + (nextPiece done part).length) := by
  have hpos := List.length_pos_iff.2 hpart
  have hbehind := h.behind
  have hcount : stop - r = part.length := by omega
  rw [writeComponent]
  by_cases hdone : done = []
  · have hfirst : ¬ front.length < w := by rw [h.front_lt_iff]; exact not_not.2 hdone
    rw [if_neg hfirst]
    simp only [pure, Except.pure, bind, Except.bind, if_pos hbehind, hcount,
      copyDown_eq hslice (w := w) (by omega), nextPiece, if_pos hdone, List.nil_append]
  · have hgap := h.gap hdone
    have hone : w + [slash].length ≤ buf.length := by
      rw [List.length_singleton]
      omega
    have hsame : slice (overwrite buf w [slash]) r stop = .ok part := by
      rw [slice_overwrite hone (by rw [List.length_singleton]; omega), hslice]
    have hroom : w + 1 + part.length ≤ (overwrite buf w [slash]).length := by
      rw [length_overwrite hone]
      omega
    have hboth : overwrite (overwrite buf w [slash]) (w + 1) part =
        overwrite buf w (nextPiece done part) := by
      rw [nextPiece, if_neg hdone]
      exact overwrite_overwrite hone
    have hcursor : w + 1 + part.length = w + (nextPiece done part).length := by
      rw [nextPiece, if_neg hdone, List.length_append, List.length_singleton, Nat.add_assoc]
    rw [if_pos (h.front_lt_iff.2 hdone), store_eq (by omega)]
    simp only [pure, Except.pure, bind, Except.bind, if_pos (show w + 1 ≤ r from hgap), hcount,
      copyDown_eq hsame hroom, hboth, hcursor]

/-- Once the component is written the same holds one place behind it, and what is still to be read
is as it was. -/
theorem Writing.next (h : Writing front done buf r w) (hstop : stop = r + part.length)
    (hlen : stop ≤ buf.length) (hpart : part ≠ []) :
    Writing front (done ++ [part]) (overwrite buf w (nextPiece done part)) (stop + 1)
        (w + (nextPiece done part).length) ∧
      (overwrite buf w (nextPiece done part)).length = buf.length ∧
      ∀ n, (overwrite buf w (nextPiece done part)).drop (stop + n) = buf.drop (stop + n) := by
  have hpiece : w + (nextPiece done part).length ≤ stop := by
    have hbehind := h.behind
    rw [nextPiece, List.length_append]
    by_cases hdone : done = []
    · rw [if_pos hdone, List.length_nil]
      omega
    · have hgap := h.gap hdone
      rw [if_neg hdone, List.length_singleton]
      omega
  have hsame := length_overwrite (Nat.le_trans hpiece hlen)
  refine ⟨⟨?_, ?_, ?_, ?_, ?_⟩, hsame, ?_⟩
  · rw [take_overwrite h.inside, h.written, List.append_assoc, joinWith_concat]
    rfl
  · intro hnil
    rcases List.mem_append.1 hnil with hnil | hnil
    · exact h.nil_notMem hnil
    · exact hpart (List.mem_singleton.1 hnil).symm
  · rw [hsame]
    omega
  · omega
  · intro _
    omega
  · intro n
    exact drop_overwrite h.inside (by omega)

/-- The component at the front of some bytes, and what comes behind it: nothing, or a slash. -/
theorem exists_component (path : List UInt8) :
    ∃ part behind, path = part ++ behind ∧ slash ∉ part ∧ (∀ c ∈ behind.head?, c = slash) := by
  refine ⟨path.takeWhile (· != slash), path.dropWhile (· != slash),
    List.takeWhile_append_dropWhile.symm, ?_, ?_⟩
  · intro h
    have hne := List.mem_takeWhile_imp h
    simp at hne
  · intro c hc
    have hnot := List.head?_dropWhile_not (· != slash) path
    rw [hc] at hnot
    simpa using hnot

/-- A component that ends where nothing follows or a slash does is found by looking for the slash,
from its start on and from anywhere inside it. -/
theorem componentEnd_eq (h : buf.drop r = part ++ behind) (hpart : slash ∉ part)
    (hbehind : ∀ c ∈ behind.head?, c = slash) : componentEnd buf r = r + part.length := by
  have hall : ∀ c ∈ part, (c != slash) = true := by
    intro c hc
    rw [bne_iff_ne]
    rintro rfl
    exact hpart hc
  have hnone : behind.takeWhile (· != slash) = [] := by
    cases behind with
    | nil => rfl
    | cons c rest =>
      rw [hbehind c rfl]
      rfl
  rw [componentEnd, h, List.takeWhile_append_of_pos hall, hnone, List.append_nil]

theorem slice_component (h : buf.drop r = part ++ behind) (hr : r ≤ buf.length) :
    r + part.length ≤ buf.length ∧ slice buf r (r + part.length) = .ok part ∧
      buf.drop (r + part.length + 1) = behind.drop 1 := by
  have hlen := congrArg List.length h
  rw [List.length_drop, List.length_append] at hlen
  refine ⟨by omega, ?_, ?_⟩
  · rw [slice_eq (by omega) (by omega), h, Nat.add_sub_cancel_left, List.take_left]
  · rw [Nat.add_assoc, ← List.drop_drop, h, ← List.drop_drop, List.drop_left]

/-- The components of a path that lead somewhere. -/
def kept (path : List UInt8) : List (List UInt8) :=
  (split path).filter fun part => part ≠ [] ∧ part ≠ dot

theorem kept_append (hpart : slash ∉ part) (hbehind : ∀ c ∈ behind.head?, c = slash) :
    kept (part ++ behind) =
      (if part = [] ∨ part = dot then [] else [part]) ++ kept (behind.drop 1) := by
  have hfree := ne_slash_of_notMem hpart
  have hone : [part].filter (fun part => part ≠ [] ∧ part ≠ dot) =
      if part = [] ∨ part = dot then [] else [part] := by
    by_cases h : part = [] ∨ part = dot
    · simp [h, imp_iff_not_or]
    · rw [not_or] at h
      simp [h]
  cases behind with
  | nil =>
    have h : split part = [part] := fields_of_free hfree
    rw [List.append_nil, kept, h, hone]
    exact (List.append_nil _).symm
  | cons c rest =>
    have hc : c = slash := hbehind c rfl
    have h : split (part ++ slash :: rest) = [part] ++ split rest := by
      rw [split, fields_append (by decide), fields_of_free hfree]
      rfl
    rw [hc, kept, h, List.filter_append, hone]
    rfl

theorem Writing.mono (h : Writing front done buf r w) {r' : Nat} (hr : r ≤ r') :
    Writing front done buf r' w where
  written := h.written
  nil_notMem := h.nil_notMem
  inside := h.inside
  behind := Nat.le_trans h.behind hr
  gap hdone := Nat.lt_of_lt_of_le (h.gap hdone) hr

theorem collapse_end (base : Nat) (hr : buf.length ≤ r) :
    collapse base buf.length buf r w = .ok (buf.take w) := by
  rw [collapse, dif_neg (by omega)]

/-- The first pass steps over a slash, and it does not matter whether it steps over the end. -/
theorem collapse_skip (base : Nat) (h : ∀ c ∈ (buf.drop r).head?, c = slash) :
    collapse base buf.length buf r w = collapse base buf.length buf (r + 1) w := by
  cases hdrop : buf.drop r with
  | nil =>
    have hr := List.drop_eq_nil_iff.1 hdrop
    rw [collapse_end base hr, collapse_end base (by omega)]
  | cons c rest =>
    have hlen := congrArg List.length hdrop
    rw [List.length_drop, List.length_cons] at hlen
    have hc : c = slash := h c (by rw [hdrop]; rfl)
    rw [collapse, dif_pos (by omega), fetch_eq hdrop]
    simp only [bind, Except.bind, if_pos hc]

/-- What the first pass does with the component at `r`. -/
theorem collapse_component (h : Writing front done buf r w) (hdrop : buf.drop r = part ++ behind)
    (hpart : slash ∉ part) (hne : part ≠ []) (hbehind : ∀ c ∈ behind.head?, c = slash) :
    collapse front.length buf.length buf r w =
      if part = dot then collapse front.length buf.length buf (r + part.length) w
      else collapse front.length buf.length (overwrite buf w (nextPiece done part))
        (r + part.length) (w + (nextPiece done part).length) := by
  obtain ⟨c, part', rfl⟩ := List.exists_cons_of_ne_nil hne
  rw [List.mem_cons, not_or] at hpart
  have hr : r < buf.length := by
    rw [← Nat.not_le, ← List.drop_eq_nil_iff, hdrop]
    simp
  obtain ⟨hinside, hslice, _⟩ := slice_component hdrop (Nat.le_of_lt hr)
  have hstop : componentEnd buf (r + 1) = r + (c :: part').length := by
    have htail : buf.drop (r + 1) = part' ++ behind := by
      rw [← List.drop_drop, hdrop]
      rfl
    rw [componentEnd_eq htail hpart.2 hbehind, List.length_cons]
    omega
  rw [collapse, dif_pos hr, fetch_eq hdrop]
  simp only [bind, Except.bind, hstop, hslice, if_neg (Ne.symm hpart.1)]
  split
  · rfl
  · rw [h.writeComponent_eq hslice rfl hinside hne]

/-- The first pass keeps the components that are neither empty nor the dot. -/
theorem collapse_eq (h : Writing front done buf r w) :
    collapse front.length buf.length buf r w =
      .ok (front ++ joinWith slash (done ++ kept (buf.drop r))) := by
  generalize hn : buf.length - r = n
  induction n using Nat.strong_induction_on generalizing done buf r w with
  | _ n ih =>
    rcases Nat.lt_or_ge r buf.length with hr | hr
    · obtain ⟨part, behind, hdrop, hpart, hbehind⟩ := exists_component (buf.drop r)
      obtain ⟨hinside, _, hrest⟩ := slice_component hdrop (Nat.le_of_lt hr)
      rw [hdrop, kept_append hpart hbehind, ← hrest]
      have hnext : ∀ c ∈ (buf.drop (r + part.length)).head?, c = slash := by
        rw [← List.drop_drop, hdrop, List.drop_left]
        exact hbehind
      by_cases hnil : part = []
      · subst hnil
        rw [List.length_nil, Nat.add_zero] at hnext ⊢
        rw [if_pos (.inl rfl), List.nil_append, collapse_skip _ hnext]
        exact ih _ (by omega) (h.mono (Nat.le_succ r)) rfl
      rw [collapse_component h hdrop hpart hnil hbehind]
      by_cases hdot : part = dot
      · rw [if_pos hdot, if_pos (.inr hdot), List.nil_append, collapse_skip _ hnext]
        exact ih _ (by omega) (h.mono (by omega)) rfl
      · obtain ⟨hwriting, hsame, hkeep⟩ := h.next rfl hinside hnil
        have hskip : ¬ (part = [] ∨ part = dot) := not_or.2 ⟨hnil, hdot⟩
        have hnext' : ∀ c ∈ ((overwrite buf w (nextPiece done part)).drop
            (r + part.length)).head?, c = slash := by
          rw [← Nat.add_zero (r + part.length), hkeep 0]
          exact hnext
        rw [if_neg hdot, if_neg hskip, ← hsame, collapse_skip _ hnext', ← hkeep 1,
          ← List.append_assoc]
        exact ih _ (by omega) hwriting rfl
    · have hnone : kept (buf.drop r) = [] := by
        rw [List.drop_eq_nil_of_le hr]
        rfl
      rw [collapse_end _ hr, h.written, hnone, List.append_nil]

/-- Looking for the last slash in what is written finds the end of all components but the last. -/
theorem Writing.dropLast (h : Writing front (done ++ [part]) buf r w) (hpart : slash ∉ part) :
    ∃ w', dropLast front.length buf w = .ok w' ∧ Writing front done buf r w' := by
  have hfree := ne_slash_of_notMem hpart
  have hcursor := h.cursor_eq
  have hgap := h.gap (List.append_ne_nil_of_right_ne_nil _ (List.cons_ne_nil part []))
  have hinside := h.inside
  have hfront : front.length ≤ w := by omega
  have hslice : slice buf front.length w = .ok (joinWith slash (done ++ [part])) := by
    rw [slice_eq hfront hinside, List.take_drop, Nat.add_sub_cancel' hfront, h.written,
      List.drop_left]
  have hwritten := h.written
  rw [joinWith_concat] at hslice hcursor hwritten
  rw [List.length_append] at hcursor
  refine ⟨front.length + (joinWith slash done).length, ?_, ?_, ?_, by omega, by omega, ?_⟩
  · rw [Path.dropLast, hslice]
    simp only [bind, Except.bind]
    by_cases hdone : done = []
    · rw [if_pos hdone, hdone]
      have hnone : lastIndex (· == slash) (joinWith slash [] ++ ([] ++ part)) = none :=
        lastIndex_eq_none hfree
      rw [hnone]
      rfl
    · rw [if_neg hdone, List.singleton_append, lastIndex_append (by decide) hfree]
      rfl
  · have hall : front.length + (joinWith slash done).length =
        (front ++ joinWith slash done).length := List.length_append.symm
    rw [← Nat.min_eq_left (show front.length + (joinWith slash done).length ≤ w by omega),
      ← List.take_take, hwritten, ← List.append_assoc, hall, List.take_left]
  · exact fun hnil => h.nil_notMem (List.mem_append_left _ hnil)
  · intro _
    omega

theorem resolve_end (rooted : Bool) (base depth : Nat) (hr : buf.length ≤ r) :
    resolve rooted base buf.length buf r w depth = .ok (buf.take w) := by
  rw [resolve, dif_neg (by omega)]

/-- What the second pass does with the component at `r`. -/
theorem resolve_component (rooted : Bool) (depth : Nat) (hdrop : buf.drop r = part ++ behind)
    (hpart : slash ∉ part) (hne : part ≠ []) (hbehind : ∀ c ∈ behind.head?, c = slash) :
    resolve rooted front.length buf.length buf r w depth =
      if part = dotdot ∧ 0 < depth then
        dropLast front.length buf w >>= fun w' =>
          resolve rooted front.length buf.length buf (r + part.length + 1) w' (depth - 1)
      else if part = dotdot ∧ rooted = true then
        resolve rooted front.length buf.length buf (r + part.length + 1) w depth
      else
        writeComponent front.length buf r (r + part.length) w >>= fun next =>
          resolve rooted front.length buf.length next.1 (r + part.length + 1) next.2
            (if part = dotdot then depth else depth + 1) := by
  have hr : r < buf.length := by
    rw [← Nat.not_le, ← List.drop_eq_nil_iff, hdrop]
    simp [hne]
  obtain ⟨_, hslice, _⟩ := slice_component hdrop (Nat.le_of_lt hr)
  rw [resolve, dif_pos hr]
  simp only [componentEnd_eq hdrop hpart hbehind, hslice, bind, Except.bind]

/-- One turn of the second pass does to what is written what one component does to the stack of the
walk, which is written in reverse. -/
theorem resolve_step {rooted : Bool} {names : List (List UInt8)} {ups : Nat}
    (h : Writing front (stack names ups).reverse buf r w) (hstack : IsStack rooted names ups)
    (hdrop : buf.drop r = part ++ behind) (hslash : slash ∉ part) (hnil : part ≠ [])
    (hdot : part ≠ dot) (hbehind : ∀ c ∈ behind.head?, c = slash) :
    ∃ names' ups' buf' w', IsStack rooted names' ups' ∧
      push rooted (stack names ups) part = stack names' ups' ∧
      Writing front (stack names' ups').reverse buf' (r + part.length + 1) w' ∧
      buf'.drop (r + part.length + 1) = behind.drop 1 ∧
      resolve rooted front.length buf.length buf r w names.length =
        resolve rooted front.length buf'.length buf' (r + part.length + 1) w' names'.length := by
  have hr : r ≤ buf.length := by
    refine Nat.le_of_lt (Nat.lt_of_not_le fun hle => ?_)
    rw [List.drop_eq_nil_of_le hle] at hdrop
    exact hnil (List.append_eq_nil_iff.1 hdrop.symm).1
  obtain ⟨hinside, hslice, hrest⟩ := slice_component hdrop hr
  -- The component is written where the stack grows: a name, or two dots that are kept.
  obtain ⟨hwriting, hsame, hkeep⟩ := h.next rfl hinside hnil
  have hwrite := h.writeComponent_eq hslice rfl hinside hnil
  rw [resolve_component rooted _ hdrop hslash hnil hbehind]
  by_cases hup : part = dotdot
  · subst hup
    cases names with
    | cons name names =>
      have hname := hstack.ordinary name List.mem_cons_self
      rw [reverse_stack_cons] at h
      obtain ⟨w', hpop, hpopped⟩ := h.dropLast hname.no_slash
      refine ⟨names, ups, buf, w', hstack.tail, push_dotdot_name hname _,
        hpopped.mono (by omega), hrest, ?_⟩
      rw [if_pos ⟨rfl, Nat.succ_pos _⟩, hpop]
      rfl
    | nil =>
      have hpush := hstack.push_dotdot
      rw [if_neg fun hpop => Nat.not_lt_zero _ hpop.2]
      cases rooted with
      | true =>
        refine ⟨[], ups, buf, w, hstack, hpush, h.mono (by omega), hrest, ?_⟩
        rw [if_pos ⟨rfl, rfl⟩]
      | false =>
        rw [← reverse_stack_succ] at hwriting
        refine ⟨[], ups + 1, _, _, isStack_ups _, hpush, hwriting, by rw [hkeep 1, hrest], ?_⟩
        rw [if_neg fun hroot => Bool.false_ne_true hroot.2, if_pos rfl, hwrite, hsame]
        rfl
  · have hname : Ordinary part := ⟨hnil, hdot, hup, hslash⟩
    rw [← reverse_stack_cons] at hwriting
    refine ⟨part :: names, ups, _, _, hstack.cons hname, push_name _ hname, hwriting,
      by rw [hkeep 1, hrest], ?_⟩
    rw [if_neg fun hpop => hup hpop.1, if_neg fun hroot => hup hroot.1, if_neg hup, hwrite, hsame]
    rfl

/-- The second pass writes the components that the walk leaves on its stack. -/
theorem resolve_eq {rooted : Bool} {names : List (List UInt8)} {ups : Nat}
    (h : Writing front (stack names ups).reverse buf r w) (hstack : IsStack rooted names ups)
    (htodo : buf.drop r = joinWith slash todo)
    (hparts : ∀ part ∈ todo, part ≠ [] ∧ part ≠ dot ∧ slash ∉ part) :
    resolve rooted front.length buf.length buf r w names.length =
      .ok (front ++ joinWith slash (todo.foldl (push rooted) (stack names ups)).reverse) := by
  induction todo generalizing names ups buf r w with
  | nil =>
    rw [resolve_end _ _ _ (List.drop_eq_nil_iff.1 htodo), h.written]
    rfl
  | cons part more ih =>
    obtain ⟨hnil, hdot, hslash⟩ := hparts part List.mem_cons_self
    obtain ⟨behind, hdrop, hbehind, hrest⟩ : ∃ behind, buf.drop r = part ++ behind ∧
        (∀ c ∈ behind.head?, c = slash) ∧ behind.drop 1 = joinWith slash more := by
      by_cases hlast : more = []
      · subst hlast
        exact ⟨[], by rw [htodo, List.append_nil]; rfl, by simp, rfl⟩
      · exact ⟨slash :: joinWith slash more, by rw [htodo, joinWith_cons_of_ne_nil hlast],
          by simp, rfl⟩
    obtain ⟨names', ups', buf', w', hstack', hpush, hwriting, hdrop', hstep⟩ :=
      resolve_step h hstack hdrop hslash hnil hdot hbehind
    rw [hstep, List.foldl_cons, hpush]
    exact ih hwriting hstack' (hdrop'.trans hrest)
      fun other hother => hparts other (List.mem_cons_of_mem _ hother)

theorem Writing.init (rooted : Bool) {path : List UInt8}
    (h : path.take (rootOf rooted).length = rootOf rooted) :
    Writing (rootOf rooted) [] path (rootOf rooted).length (rootOf rooted).length where
  written := by rw [h]; exact (List.append_nil _).symm
  nil_notMem h := nomatch h
  inside := by
    have hlen := congrArg List.length h
    rw [List.length_take] at hlen
    omega
  behind := Nat.le_refl _
  gap h := absurd rfl h

theorem mem_kept {path part : List UInt8} (h : part ∈ kept path) :
    part ≠ [] ∧ part ≠ dot ∧ slash ∉ part := by
  obtain ⟨hmem, hkept⟩ := List.mem_filter.1 h
  rw [decide_eq_true_iff] at hkept
  exact ⟨hkept.1, hkept.2, slash_notMem_of_mem_split hmem⟩

/-- Both passes together are the walk, written out. -/
theorem cleanInPlace_eq (path : List UInt8) : cleanInPlace path = .ok (clean path) := by
  have hbase : ∀ rooted : Bool, (if rooted = true then 1 else 0) = (rootOf rooted).length := by
    decide
  rw [clean_eq, ofComponents_eq]
  rw [cleanInPlace]
  generalize CString.content path = s
  have htake : s.take (rootOf (isAbsolute s)).length = rootOf (isAbsolute s) := by
    have hs := rootOf_append_body s
    generalize rootOf (isAbsolute s) = first at hs
    rw [← hs, List.take_left]
  have hcollapsed : collapse (rootOf (isAbsolute s)).length s.length s
      (rootOf (isAbsolute s)).length (rootOf (isAbsolute s)).length =
      .ok (rootOf (isAbsolute s) ++ joinWith slash (kept (body s))) :=
    collapse_eq (Writing.init _ htake)
  have hwalk : (kept (body s)).foldl (push (isAbsolute s)) (stack [] 0) = walk s := by
    rw [kept, foldl_push_filter, foldl_push_body]
    rfl
  have hwriting : Writing (rootOf (isAbsolute s)) (stack [] 0).reverse
      (rootOf (isAbsolute s) ++ joinWith slash (kept (body s))) (rootOf (isAbsolute s)).length
      (rootOf (isAbsolute s)).length := Writing.init _ List.take_left
  have hresolved := resolve_eq hwriting (isStack_nil (isAbsolute s)) List.drop_left
    fun part => mem_kept
  rw [hwalk, List.length_nil] at hresolved
  simp only [hbase, hcollapsed, bind, Except.bind]
  rw [hresolved]
  rfl

/-- Cleaning a path in its own buffer breaks no promise: the write cursor never overtakes the read
cursor, and no access leaves the buffer. What stands there in the end is the path with the
components that the walk leaves on its stack, and it is no longer than the path unless that is
empty. -/
theorem cleanInPlace_refines_walk (path : List UInt8) :
    cleanInPlace path = .ok (clean path) ∧
      (clean path).length ≤ max 1 (CString.content path).length :=
  ⟨cleanInPlace_eq path, length_clean_le path⟩

end CText.Path
