import CText.Checked.Path
import CText.Proofs.Checked.CString
import CText.Proofs.Path.InPlace
import CText.Proofs.Path.Placing

/-!
# Cursors and ranges of paths

The cursors that clean a path stay in its buffer, and a last component and a directory are ranges of
the path. Where a path is made absolute or relative, the sizes that are asked for can be counted as
long as the paths are not of an absurd length.
-/

namespace CText.Checked

open Buffer Escape CText.Path

variable {buf path : List UInt8} {base r stop w depth turns : Nat}

/-! ## Cleaning -/

theorem componentEnd_eq {start : Nat} (hstart : start ≤ buf.length) (h : buf.length < countLimit) :
    componentEnd buf start = .ok (Path.componentEnd buf start) := by
  have hlen := List.length_drop (i := start) (l := buf)
  rw [componentEnd, behind_eq hstart, ok_bind, Path.componentEnd,
    List.takeWhile_eq_take_findIdx_not, List.length_take]
  simp only [bne, Bool.not_not]
  cases hfound : (buf.drop start).findIdx? (· == slash) with
  | none =>
    have hnone := List.findIdx?_eq_none_iff_findIdx_eq.1 hfound
    have hend : start + min (buf.drop start).length (buf.drop start).length = buf.length := by omega
    rw [hnone, hend]
    rfl
  | some i =>
    obtain ⟨hi, hfind⟩ := List.findIdx?_eq_some_iff_findIdx_eq.1 hfound
    rw [hfind, Nat.min_eq_left hi.le]
    exact add_eq (by omega)

/-- A component may as well be read from its second byte on. -/
theorem componentEnd_succ {c : UInt8} (hc : buf[r]? = some c) (hne : c ≠ slash) :
    Path.componentEnd buf (r + 1) = Path.componentEnd buf r := by
  obtain ⟨hr, rfl⟩ := List.getElem?_eq_some_iff.1 hc
  rw [Path.componentEnd, Path.componentEnd, List.drop_eq_getElem_cons hr,
    List.takeWhile_cons_of_pos (by simpa using hne), List.length_cons]
  omega

theorem componentEnd_le {start : Nat} (h : start ≤ buf.length) :
    Path.componentEnd buf start ≤ buf.length := by
  have hle := (List.takeWhile_sublist (l := buf.drop start) (· != slash)).length_le
  rw [List.length_drop] at hle
  rw [Path.componentEnd]
  omega

theorem length_copyDown {written : List UInt8} (h : copyDown buf r stop w = .ok written) :
    written.length = buf.length := by
  rw [copyDown] at h
  cases hpart : slice buf r stop with
  | error v =>
    rw [hpart] at h
    cases h
  | ok part =>
    rw [hpart] at h
    exact length_storeAll h

theorem writeComponent_eq (hstop : stop ≤ buf.length) (hr : r ≤ stop)
    (h : buf.length < countLimit) :
    writeComponent base buf r stop w = Path.writeComponent base buf r stop w := by
  have hcursor {w : Nat} (hw : w ≤ r) : add w (stop - r) = .ok (w + (stop - r)) :=
    add_eq (by omega)
  rw [writeComponent, Path.writeComponent, sub_eq hr]
  split
  next hbase =>
    by_cases hw : w < buf.length
    · rw [store_eq_set hw, ok_bind, add_eq (by omega)]
      simp only [ok_bind, pure, Except.pure]
      split
      next hbehind =>
        rw [hcursor hbehind]
        rfl
      next => rfl
    · rw [store, if_neg hw]
      rfl
  next =>
    simp only [ok_bind, pure, Except.pure]
    split
    next hbehind =>
      rw [hcursor hbehind]
      rfl
    next => rfl

theorem length_writeComponent {next : List UInt8 × Nat}
    (hnext : Path.writeComponent base buf r stop w = .ok next) : next.1.length = buf.length := by
  have hcopied {start : List UInt8} {w : Nat}
      (h : (do return (← copyDown start r stop w, w + (stop - r))) = Except.ok next) :
      next.1.length = start.length := by
    cases hcopy : copyDown start r stop w with
    | error v =>
      rw [hcopy] at h
      cases h
    | ok written =>
      rw [hcopy] at h
      cases h
      exact length_copyDown hcopy
  rw [Path.writeComponent] at hnext
  split at hnext
  next hbase =>
    by_cases hw : w < buf.length
    · rw [store_eq_set hw] at hnext
      simp only [ok_bind, pure, Except.pure] at hnext
      split at hnext
      next => rw [hcopied hnext, List.length_set]
      next => cases hnext
    · rw [store, if_neg hw] at hnext
      cases hnext
  next =>
    simp only [ok_bind, pure, Except.pure] at hnext
    split at hnext
    next => exact hcopied hnext
    next => cases hnext

theorem length_collapse_end {out : List UInt8} (hr : buf.length ≤ r)
    (h : Path.collapse base buf.length buf r w = .ok out) : out.length ≤ buf.length := by
  rw [collapse_end base hr] at h
  cases h
  exact List.length_take_le' _ _

/-- The first pass, the result of which has no more bytes than the path. -/
theorem collapse_eq (hturns : buf.length ≤ r + turns) (h : buf.length < countLimit) :
    collapse base buf r w turns = Path.collapse base buf.length buf r w ∧
      ∀ out, Path.collapse base buf.length buf r w = .ok out → out.length ≤ buf.length := by
  induction turns generalizing buf r w with
  | zero =>
    refine ⟨?_, fun out => length_collapse_end (by omega)⟩
    rw [collapse_end base (by omega)]
    rfl
  | succ turns ih =>
    by_cases hr : r < buf.length
    · rw [collapse, if_pos hr, Path.collapse, dif_pos hr, fetch_getElem hr, ok_bind, ok_bind]
      split
      next =>
        rw [add_eq (by omega), ok_bind]
        exact ih (by omega) h
      next hne =>
        have hstop : Path.componentEnd buf (r + 1) ≤ buf.length := componentEnd_le hr
        have hnext := Path.le_componentEnd buf (r + 1)
        rw [componentEnd_eq hr.le h, ok_bind, ← componentEnd_succ (List.getElem?_eq_getElem hr) hne]
        generalize Path.componentEnd buf (r + 1) = stop at hstop hnext
        dsimp only
        rw [slice_eq (by omega) hstop, ok_bind, ok_bind]
        split
        next => exact ih (by omega) h
        next =>
          rw [writeComponent_eq hstop (by omega) h]
          cases hwritten : Path.writeComponent base buf r stop w with
          | error v =>
            refine ⟨rfl, fun out hout => ?_⟩
            cases hout
          | ok next =>
            have hlen := length_writeComponent hwritten
            rw [ok_bind, ok_bind, ← hlen]
            exact ih (by omega) (by omega)
    · refine ⟨?_, fun out => length_collapse_end (by omega)⟩
      rw [collapse, if_neg hr, Path.collapse, dif_neg hr]
      rfl

theorem dropLast_eq (base w : Nat) (h : buf.length < countLimit) :
    dropLast base buf w = Path.dropLast base buf w := by
  rw [dropLast, Path.dropLast]
  cases hpart : slice buf base w with
  | error v => rfl
  | ok part =>
    have hlen := add_length_le_of_slice hpart
    rw [ok_bind, ok_bind]
    cases hlast : lastIndex (· == slash) part with
    | none => rfl
    | some i =>
      have hi := lt_of_lastIndex hlast
      exact add_eq (by omega)

theorem resolve_eq {rooted : Bool} (hturns : buf.length ≤ r + turns) (hdepth : depth ≤ r)
    (h : buf.length + 1 < countLimit) :
    resolve rooted base buf r w depth turns =
      Path.resolve rooted base buf.length buf r w depth := by
  induction turns generalizing buf r w depth with
  | zero =>
    rw [resolve_end rooted base depth (by omega)]
    rfl
  | succ turns ih =>
    rw [resolve, Path.resolve]
    by_cases hr : r < buf.length
    · have hstop := componentEnd_le hr.le
      have hle := Path.le_componentEnd buf r
      rw [if_pos hr, dif_pos hr, componentEnd_eq hr.le (by omega), ok_bind]
      generalize Path.componentEnd buf r = stop at hstop hle
      dsimp only
      rw [slice_eq hle hstop, ok_bind, ok_bind, add_eq (by omega)]
      split
      next hpop =>
        rw [dropLast_eq _ _ (by omega)]
        cases Path.dropLast base buf w with
        | error v => rfl
        | ok w =>
          rw [ok_bind, ok_bind, ok_bind, sub_eq hpop.2, ok_bind]
          exact ih (by omega) (by omega) h
      next =>
        split
        next => exact ih (by omega) (by omega) h
        next =>
          rw [writeComponent_eq hstop hle (by omega)]
          cases hwritten : Path.writeComponent base buf r stop w with
          | error v => rfl
          | ok next =>
            have hlen := length_writeComponent hwritten
            rw [ok_bind, ok_bind, add_eq (by omega), ← hlen]
            by_cases hup : (buf.drop r).take (stop - r) = dotdot
            · rw [if_pos hup, if_pos hup]
              exact ih (by omega) (by omega) (by omega)
            · rw [if_neg hup, if_neg hup]
              exact ih (by omega) (by omega) (by omega)
    · rw [if_neg hr, dif_neg hr]
      rfl

/-- Cleaning a path never leaves its buffer. -/
theorem clean_eq (h : path.length + 1 < countLimit) : clean path = .ok (Path.clean path) := by
  have hlen := CString.content_length_le path
  have hinPlace := cleanInPlace_eq path
  rw [cleanInPlace] at hinPlace
  rw [← hinPlace, clean, content_eq, ok_bind]
  dsimp only
  generalize CString.content path = s at hlen
  generalize hbase : (if isAbsolute s then 1 else 0) = base
  obtain ⟨hcollapse, hshorter⟩ : collapse base s base base s.length =
      Path.collapse base s.length s base base ∧ _ := collapse_eq (by omega) (by omega)
  rw [hcollapse]
  cases hcollapsed : Path.collapse base s.length s base base with
  | error v => rfl
  | ok collapsed =>
    have hle := hshorter collapsed hcollapsed
    rw [ok_bind, ok_bind, resolve_eq (Nat.le_add_left _ _) (Nat.zero_le _) (by omega)]

/-! ## Parts of a path -/

section

variable (p : UInt8 → Bool) (s : List UInt8)

/-- Setting units aside at the end keeps what goes through the last of the others. -/
theorem reverse_dropWhile_reverse :
    (s.reverse.dropWhile fun a => !p a).reverse =
      match lastIndex p s with
      | none => []
      | some i => s.take (i + 1) := by
  cases hlast : lastIndex p s with
  | none =>
    have hall := forall_of_lastIndex_none hlast
    rw [List.dropWhile_eq_nil_iff.2, List.reverse_nil]
    intro a ha
    rw [hall a (List.mem_reverse.1 ha)]
    rfl
  | some i =>
    obtain ⟨t, a, behind, rfl, rfl, ha, hbehind⟩ := exists_of_lastIndex hlast
    have haside : ∀ b ∈ behind.reverse, (!p b) = true := by
      intro b hb
      rw [hbehind b (List.mem_reverse.1 hb)]
      rfl
    rw [List.reverse_append, List.reverse_cons, List.append_assoc,
      List.dropWhile_append_of_pos haside, List.singleton_append,
      List.dropWhile_cons_of_neg (by rw [ha]; nofun)]
    simp [List.take_append, List.take_of_length_le]

/-- What is free of a unit at the end is what stands behind the last such unit. -/
theorem reverse_takeWhile_reverse :
    (s.reverse.takeWhile fun a => !p a).reverse =
      match lastIndex p s with
      | none => s
      | some i => s.drop (i + 1) := by
  cases hlast : lastIndex p s with
  | none =>
    have hall := forall_of_lastIndex_none hlast
    rw [List.takeWhile_eq_self_iff.2, List.reverse_reverse]
    intro a ha
    rw [hall a (List.mem_reverse.1 ha)]
    rfl
  | some i =>
    obtain ⟨t, a, behind, rfl, rfl, ha, hbehind⟩ := exists_of_lastIndex hlast
    have haside : ∀ b ∈ behind.reverse, (!p b) = true := by
      intro b hb
      rw [hbehind b (List.mem_reverse.1 hb)]
      rfl
    rw [List.reverse_append, List.reverse_cons, List.append_assoc,
      List.takeWhile_append_of_pos haside, List.singleton_append,
      List.takeWhile_cons_of_neg (by rw [ha]; nofun)]
    simp

end

theorem trimSlashes_eq (s : List UInt8) :
    trimSlashes s =
      match lastIndex (· != slash) s with
      | none => []
      | some i => s.take (i + 1) := by
  rw [← reverse_dropWhile_reverse, trimSlashes]
  simp only [bne, Bool.not_not]

theorem afterLastSlash_eq (s : List UInt8) :
    afterLastSlash s =
      match lastIndex (· == slash) s with
      | none => s
      | some i => s.drop (i + 1) :=
  reverse_takeWhile_reverse (· == slash) s

theorem throughLastSlash_eq (s : List UInt8) :
    throughLastSlash s =
      match lastIndex (· == slash) s with
      | none => []
      | some i => s.take (i + 1) :=
  reverse_dropWhile_reverse (· == slash) s

/-- One slash more at the end makes no difference. -/
theorem trimSlashes_concat (s : List UInt8) : trimSlashes (s ++ [slash]) = trimSlashes s := by
  rw [trimSlashes, trimSlashes, List.reverse_append, List.reverse_singleton, List.singleton_append,
    List.dropWhile_cons_of_pos rfl]

theorem isEmpty_take_succ {s : List UInt8} {n : Nat} (h : n < s.length) :
    (s.take (n + 1)).isEmpty = false := by
  rw [List.isEmpty_eq_false_iff, ← List.length_pos_iff, List.length_take]
  omega

theorem through_eq {last : Nat} (hlast : last < path.length) (h : path.length < countLimit) :
    through path last = .ok (path.take (last + 1)) := by
  rw [through, add_eq (by omega), ok_bind, front_eq hlast]

theorem basename_eq (h : path.length < countLimit) : basename path = .ok (Path.basename path) := by
  have hlen := CString.content_length_le path
  rw [basename, Path.basename, content_eq, ok_bind]
  generalize CString.content path = s at hlen
  dsimp only
  split
  next => rfl
  next =>
    rw [trimSlashes_eq]
    cases hlast : lastIndex (· != slash) s with
    | none => rfl
    | some last =>
      have hlt := lt_of_lastIndex hlast
      dsimp only
      rw [through_eq hlt (by omega), ok_bind, isEmpty_take_succ hlt, afterLastSlash_eq]
      cases hslash : lastIndex (· == slash) (s.take (last + 1)) with
      | none => exact behind_eq (Nat.zero_le _)
      | some i =>
        have hi := lt_of_lastIndex hslash
        have htrimmed := List.length_take_le' (last + 1) s
        dsimp only
        rw [add_eq (by omega), ok_bind, behind_eq hi]
        rfl

theorem dirname_eq (h : path.length < countLimit) : dirname path = .ok (Path.dirname path) := by
  have hlen := CString.content_length_le path
  rw [dirname, Path.dirname, content_eq, ok_bind]
  generalize CString.content path = s at hlen
  dsimp only
  rw [trimSlashes_eq]
  cases hlast : lastIndex (· != slash) s with
  | none => rfl
  | some last =>
    have hlt := lt_of_lastIndex hlast
    dsimp only
    rw [through_eq hlt (by omega), ok_bind, isEmpty_take_succ hlt, throughLastSlash_eq]
    cases hslash : lastIndex (· == slash) (s.take (last + 1)) with
    | none => rfl
    | some i =>
      obtain ⟨t, c, behind, hs, rfl, hc, -⟩ := exists_of_lastIndex hslash
      have hi := lt_of_lastIndex hslash
      have htrimmed := List.length_take (i := last + 1) (l := s)
      have htake : s.take t.length = t := by
        have htake := congrArg (List.take t.length) hs
        rwa [List.take_take, Nat.min_eq_left (by omega), List.take_left] at htake
      have hfront : (s.take (last + 1)).take (t.length + 1) = t ++ [slash] := by
        rw [hs, List.take_length_add_append, ← eq_of_beq hc]
        rfl
      have hdirectory : trimSlashes ((s.take (last + 1)).take (t.length + 1)) = trimSlashes t := by
        rw [hfront, trimSlashes_concat]
      dsimp only
      rw [isEmpty_take_succ hi, front_eq (by omega), ok_bind, htake]
      simp only [hdirectory]
      rw [trimSlashes_eq]
      cases hstop : lastIndex (· != slash) t with
      | none => rfl
      | some stop =>
        have hlt' := lt_of_lastIndex hstop
        dsimp only
        rw [through_eq (by omega) (by omega), isEmpty_take_succ hlt', ← htake, List.take_take,
          Nat.min_eq_left (by omega)]
        rfl

/-! ## Absolute and relative paths -/

section

variable {dir file whole : List UInt8} {reference : Option (List UInt8)} {cwd : WorkingDirectory}
  {n : Nat}

theorem fixedDirectory_eq (dir : List UInt8) :
    fixedDirectory dir = granted (Path.fixedDirectory dir) := by
  rw [fixedDirectory, Path.fixedDirectory, content_eq, checked_ok, ok_bind, granted_bind]
  rfl

theorem length_fixedDirectory (h : Path.fixedDirectory dir = .ok whole) :
    whole.length ≤ dir.length := by
  have hwhole : CString.content dir = whole := eq_of_reserve_map h
  rw [← hwhole]
  exact CString.content_length_le dir

theorem join_eq (h : dir.length + 1 + file.length < countLimit) :
    join dir file = granted (Path.join dir file) := by
  rw [join, Path.join, add_eq (by omega), ok_bind, add_eq h, checked_ok, ok_bind, granted_bind]
  rfl

theorem length_join (h : Path.join dir file = .ok whole) :
    whole.length = dir.length + 1 + file.length := by
  have hwhole : dir ++ slash :: file = whole := eq_of_reserve_map h
  rw [← hwhole, List.length_append, List.length_cons]
  omega

/-- What is joined, cleaned. -/
theorem clean_joined {x : Except Error (List UInt8)}
    (h : ∀ whole, x = .ok whole → whole.length + 1 < countLimit) :
    (granted x >>= fun whole => checked (clean whole)) =
      granted (x >>= fun whole => .ok (Path.clean whole)) := by
  cases x with
  | error e => rfl
  | ok whole =>
    rw [granted_ok, ok_bind, ok_bind, clean_eq (h whole rfl)]
    rfl

theorem absolute_eq (hfile : file.length ≤ n) (hreference : ∀ r ∈ reference, r.length ≤ n)
    (hcwd : ∀ dir, cwd = .ok dir → dir.length ≤ n) (h : 8 * n + 8 < countLimit) :
    absolute file reference (granted cwd) = granted (Path.absolute file reference cwd) := by
  have hcontent := CString.content_length_le file
  rw [absolute, Path.absolute, content_eq, checked_ok, ok_bind]
  generalize CString.content file = s at hcontent
  -- A directory of at most `2 * n + 1` bytes has room for the file under it.
  have hunder {dir : List UInt8} (hdir : dir.length ≤ 2 * n + 1) :
      (join dir s >>= fun whole => checked (clean whole)) =
        granted (Path.join dir s >>= fun whole => .ok (Path.clean whole)) := by
    rw [join_eq (by omega)]
    apply clean_joined
    intro whole hwhole
    have hlen := length_join hwhole
    omega
  split
  next =>
    rw [granted_bind, clean_eq (by omega)]
    rfl
  next =>
    cases reference with
    | none =>
      cases cwd with
      | error e => rfl
      | ok dir =>
        have hdir := hcwd dir rfl
        exact hunder (by omega)
    | some r =>
      have hr := hreference r rfl
      have hbase := CString.content_length_le r
      rw [Option.map_some]
      dsimp only
      rw [content_eq, checked_ok, ok_bind]
      generalize CString.content r = base at hbase
      split
      next => exact hunder (by omega)
      next =>
        cases cwd with
        | error e => rfl
        | ok dir =>
          have hdir := hcwd dir rfl
          rw [granted_ok, ok_bind, ok_bind, join_eq (by omega)]
          cases hjoined : Path.join dir base with
          | error e => rfl
          | ok whole =>
            have hlen := length_join hjoined
            exact hunder (by omega)

theorem length_placed (hfile : file.length ≤ n) (hcwd : ∀ dir, cwd = .ok dir → dir.length ≤ n)
    (hplaced : placed file none cwd = .ok whole) : whole.length ≤ 2 * n + 1 := by
  have hcontent := CString.content_length_le file
  cases habsolute : isAbsolute file with
  | true =>
    rw [placed_of_isAbsolute habsolute] at hplaced
    cases hplaced
    omega
  | false =>
    rw [placed_of_relative habsolute] at hplaced
    cases cwd with
    | error e => cases hplaced
    | ok dir =>
      have hdir := hcwd dir rfl
      cases hplaced
      rw [List.length_append, List.length_cons]
      omega

theorem length_absolute (hfile : file.length ≤ n) (hcwd : ∀ dir, cwd = .ok dir → dir.length ≤ n)
    (habsolute : Path.absolute file none cwd = .ok whole) : whole.length ≤ 2 * n + 1 := by
  obtain ⟨path, hplaced, -, rfl⟩ := exists_placed habsolute
  have hclean := length_clean_le path
  have hcontent := CString.content_length_le path
  have hlen := length_placed hfile hcwd hplaced
  omega

theorem length_components (path : List UInt8) : (components path).length ≤ path.length + 1 :=
  calc (components path).length
    _ ≤ (split path).length := List.length_filter_le _ _
    _ ≤ weight (split path) := length_le_weight _
    _ = path.length + 1 := weight_fields _

theorem commonLength_le (s t : List (List UInt8)) :
    commonLength s t ≤ s.length ∧ commonLength s t ≤ t.length := by
  induction s generalizing t with
  | nil => exact ⟨Nat.zero_le _, Nat.zero_le _⟩
  | cons a s ih =>
    cases t with
    | nil => exact ⟨Nat.zero_le _, Nat.zero_le _⟩
    | cons b t =>
      obtain ⟨hs, ht⟩ := ih t
      rw [commonLength]
      split
      · exact ⟨Nat.succ_le_succ hs, Nat.succ_le_succ ht⟩
      · exact ⟨Nat.zero_le _, Nat.zero_le _⟩

theorem relative_eq (hfile : file.length ≤ n) (hreference : ∀ r ∈ reference, r.length ≤ n)
    (hcwd : ∀ dir, cwd = .ok dir → dir.length ≤ n) (hn : 1 ≤ n) (h : 8 * n + 8 < countLimit) :
    relative file reference (granted cwd) = granted (Path.relative file reference cwd) := by
  have hdot : (reference.getD dot).length ≤ n := by
    cases reference with
    | none => exact hn
    | some r => exact hreference r rfl
  rw [relative, Path.relative, absolute_eq hfile (by simp) hcwd h,
    absolute_eq hdot (by simp) hcwd h]
  cases hwhole : Path.absolute file none cwd with
  | error e => rfl
  | ok whole =>
    cases hbase : Path.absolute (reference.getD dot) none cwd with
    | error e => rfl
    | ok base =>
      have hwholeLength := length_absolute hfile hcwd hwhole
      have hbaseLength := length_absolute hdot hcwd hbase
      have hparts := length_components base
      obtain ⟨hcommon, hcommonBase⟩ := commonLength_le (components whole) (components base)
      simp only [granted_ok, ok_bind]
      rw [sub_eq hcommonBase, checked_ok, ok_bind, slice_eq hcommon (Nat.le_refl _), checked_ok,
        ok_bind, mul_eq (by omega), ok_bind, add_eq (by omega), checked_ok, ok_bind, granted_bind,
        List.take_of_length_le (Nat.le_of_eq List.length_drop)]
      rfl

end

end CText.Checked
