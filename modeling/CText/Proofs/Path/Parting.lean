import CText.Proofs.Checked.Path
import Mathlib.Logic.Function.Iterate

/-!
# Directory and last component

A path falls into its directory and its last component in one of five ways: it is empty, or only
slashes, or a name with nothing in front, or a name with only slashes in front, or a name behind a
directory. Slashes at the end never count. Put together again with a slash, the two parts lead where
the path leads. The directory of a path is shorter than the path until there is no other directory
above, and so taking directories comes to an end.
-/

namespace CText.Path

variable {rooted : Bool} {path dir name : List UInt8}

/-! ## Slashes at the end -/

/-- What is set aside at the end is slashes, and none is left there. -/
theorem exists_trimSlashes (path : List UInt8) :
    ∃ n, path = trimSlashes path ++ List.replicate n slash ∧
      (trimSlashes path).getLast? ≠ some slash := by
  have hslashes : ∀ c ∈ path.reverse.takeWhile (· == slash), c = slash := by
    intro c hc
    have hc := List.mem_takeWhile_imp hc
    exact eq_of_beq hc
  refine ⟨(path.reverse.takeWhile (· == slash)).length, ?_, ?_⟩
  · calc path
      _ = (path.reverse.takeWhile (· == slash) ++ path.reverse.dropWhile (· == slash)).reverse := by
        rw [List.takeWhile_append_dropWhile, List.reverse_reverse]
      _ = trimSlashes path ++ (path.reverse.takeWhile (· == slash)).reverse :=
        List.reverse_append
      _ = trimSlashes path ++
          List.replicate (path.reverse.takeWhile (· == slash)).length slash := by
        rw [← List.reverse_replicate, ← List.eq_replicate_of_mem hslashes]
  · intro hlast
    rw [trimSlashes, List.getLast?_reverse] at hlast
    have hnot := List.head?_dropWhile_not (· == slash) path.reverse
    rw [hlast] at hnot
    cases hnot

theorem throughLastSlash_append (path : List UInt8) :
    throughLastSlash path ++ afterLastSlash path = path := by
  rw [throughLastSlash, afterLastSlash, ← List.reverse_append, List.takeWhile_append_dropWhile,
    List.reverse_reverse]

theorem slash_notMem_afterLastSlash (path : List UInt8) : slash ∉ afterLastSlash path := by
  intro h
  have hne := List.mem_takeWhile_imp (List.mem_reverse.1 h)
  simp at hne

theorem getLast?_throughLastSlash (hne : throughLastSlash path ≠ []) :
    (throughLastSlash path).getLast? = some slash := by
  rw [throughLastSlash, List.getLast?_reverse]
  rw [throughLastSlash, Ne, List.reverse_eq_nil_iff] at hne
  obtain ⟨c, rest, hcons⟩ := List.exists_cons_of_ne_nil hne
  have hnot := List.head?_dropWhile_not (· != slash) path.reverse
  rw [hcons] at hnot ⊢
  simpa using hnot

/-- What ends in a slash ends in slashes, at least one of them, and none is before them. -/
theorem exists_trimSlashes_of_getLast? (hlast : path.getLast? = some slash) :
    ∃ n, path = trimSlashes path ++ slash :: List.replicate n slash ∧
      (trimSlashes path).getLast? ≠ some slash := by
  obtain ⟨n, hpath, hend⟩ := exists_trimSlashes path
  cases n with
  | zero =>
    rw [List.replicate_zero, List.append_nil] at hpath
    rw [← hpath] at hend
    exact absurd hlast hend
  | succ n => exact ⟨n, hpath, hend⟩

/-! ## The five ways -/

/-- How a path falls into a directory and a last component. -/
inductive Parted : (path dir name : List UInt8) → Prop where
  | empty : Parted [] dot dot
  | root (n : Nat) : Parted (List.replicate (n + 1) slash) [slash] [slash]
  | bare {name : List UInt8} (hname : name ≠ []) (hslash : slash ∉ name) (n : Nat) :
      Parted (name ++ List.replicate n slash) dot name
  | top {name : List UInt8} (hname : name ≠ []) (hslash : slash ∉ name) (m n : Nat) :
      Parted (List.replicate (m + 1) slash ++ (name ++ List.replicate n slash)) [slash] name
  | under {dir name : List UInt8} (hdir : dir ≠ []) (hend : dir.getLast? ≠ some slash)
      (hname : name ≠ []) (hslash : slash ∉ name) (m n : Nat) :
      Parted (dir ++ slash :: (List.replicate m slash ++ (name ++ List.replicate n slash))) dir name

/-- Every path falls into its directory and its last component in one of the ways. -/
theorem parted (path : List UInt8) :
    Parted (CString.content path) (dirname path) (basename path) := by
  rw [dirname, basename]
  generalize CString.content path = s
  obtain ⟨n, hs, hend⟩ := exists_trimSlashes s
  dsimp only
  -- The first question is whether anything but slashes is there.
  by_cases htrim : trimSlashes s = []
  · rw [htrim, List.nil_append] at hs
    rw [htrim, hs]
    cases n with
    | zero => exact .empty
    | succ n => exact .root n
  have hsome : s ≠ [] := by
    rintro rfl
    exact htrim rfl
  have happend := throughLastSlash_append (trimSlashes s)
  have hslash := slash_notMem_afterLastSlash (trimSlashes s)
  have hthrough := @getLast?_throughLastSlash (trimSlashes s)
  simp only [List.isEmpty_iff, htrim, hsome, if_false]
  rw [← happend] at hs hend htrim
  generalize throughLastSlash (trimSlashes s) = front at *
  generalize afterLastSlash (trimSlashes s) = name at *
  -- The second is whether the name has a slash in front of it.
  by_cases hfront : front = []
  · rw [if_pos hfront, hs]
    rw [hfront, List.nil_append] at htrim ⊢
    exact .bare htrim hslash n
  have hlast := hthrough hfront
  have hname : name ≠ [] := by
    rintro rfl
    rw [List.append_nil] at hend
    exact hend hlast
  obtain ⟨m, hm, hdir⟩ := exists_trimSlashes_of_getLast? hlast
  rw [if_neg hfront, hs, List.append_assoc]
  generalize trimSlashes front = dir at *
  rw [hm]
  -- The last is whether anything is in front of that slash.
  by_cases hempty : dir = []
  · rw [if_pos hempty, hempty, List.nil_append]
    exact .top hname hslash m n
  · rw [if_neg hempty, List.append_assoc, List.cons_append]
    exact .under hempty hdir hname hslash m n

/-! ## Put together again -/

/-- Slashes in front make no difference to a walk. -/
theorem foldl_push_slashes (n : Nat) (path : List UInt8) (above : List (List UInt8)) :
    (split (List.replicate n slash ++ path)).foldl (push rooted) above =
      (split path).foldl (push rooted) above := by
  induction n with
  | zero => rfl
  | succ n ih =>
    have hsplit : split (List.replicate (n + 1) slash ++ path) =
        [] :: split (List.replicate n slash ++ path) := fields_cons_separator (by decide) _
    rw [hsplit, List.foldl_cons, push_skip _ (.inl rfl), ih]

/-- A slash inside divides a walk in two. -/
theorem foldl_push_under (dir path : List UInt8) (above : List (List UInt8)) :
    (split (dir ++ slash :: path)).foldl (push rooted) above =
      (split path).foldl (push rooted) ((split dir).foldl (push rooted) above) := by
  have hsplit : split (dir ++ slash :: path) = split dir ++ split path :=
    fields_append (by decide) dir path
  rw [hsplit, List.foldl_append]

theorem foldl_push_nil (above : List (List UInt8)) :
    (split []).foldl (push rooted) above = above := by
  have hempty : push rooted above [] = above := push_skip above (.inl rfl)
  exact hempty

theorem foldl_push_dot (above : List (List UInt8)) :
    (split dot).foldl (push rooted) above = above := by
  have hdot : push rooted above dot = above := push_skip above (.inr rfl)
  exact hdot

theorem foldl_push_only_slashes (n : Nat) (above : List (List UInt8)) :
    (split (List.replicate n slash)).foldl (push rooted) above = above := by
  have hslashes : (split (List.replicate n slash ++ [])).foldl (push rooted) above = _ :=
    foldl_push_slashes n [] above
  rwa [List.append_nil, foldl_push_nil] at hslashes

theorem foldl_push_trailing (path : List UInt8) (n : Nat) (above : List (List UInt8)) :
    (split (path ++ List.replicate n slash)).foldl (push rooted) above =
      (split path).foldl (push rooted) above := by
  cases n with
  | zero => rw [List.replicate_zero, List.append_nil]
  | succ n => rw [List.replicate_succ, foldl_push_under, foldl_push_only_slashes]

/-- The two parts put together are walked over as the path. -/
theorem Parted.foldl_push_eq (h : Parted path dir name) (above : List (List UInt8)) :
    (split (dir ++ slash :: name)).foldl (push rooted) above =
      (split path).foldl (push rooted) above := by
  cases h with
  | empty => rw [foldl_push_under, foldl_push_dot, foldl_push_dot, foldl_push_nil]
  | root n => exact (foldl_push_only_slashes 3 above).trans (foldl_push_only_slashes _ above).symm
  | bare _ _ n => rw [foldl_push_under, foldl_push_dot, foldl_push_trailing]
  | top _ _ m n =>
    rw [foldl_push_slashes, foldl_push_trailing]
    exact foldl_push_slashes 2 name above
  | under _ _ _ _ m n =>
    rw [foldl_push_under, foldl_push_under, foldl_push_slashes, foldl_push_trailing]

/-- A path is rooted if its directory is. -/
theorem Parted.isAbsolute_eq (h : Parted path dir name) : isAbsolute dir = isAbsolute path := by
  cases h with
  | empty => rfl
  | root n => rfl
  | bare hname hslash n =>
    rw [isAbsolute_append_of_ne_nil hname, isAbsolute_of_notMem hslash]
    rfl
  | top _ _ m n => rfl
  | under hdir _ _ _ m n => exact (isAbsolute_append_of_ne_nil hdir _).symm

theorem Parted.dir_ne_nil (h : Parted path dir name) : dir ≠ [] := by
  cases h with
  | under hdir _ _ _ _ _ => exact hdir
  | _ => exact List.cons_ne_nil _ _

theorem Parted.name_ne_nil (h : Parted path dir name) : name ≠ [] := by
  cases h with
  | bare hname _ _ | top hname _ _ _ | under _ _ hname _ _ _ => exact hname
  | _ => exact List.cons_ne_nil _ _

theorem Parted.no_nul (h : Parted path dir name) (hnul : CodeUnit.nul ∉ path) :
    CodeUnit.nul ∉ dir ∧ CodeUnit.nul ∉ name := by
  have hmark : (CodeUnit.nul : UInt8) ∉ dot ∧ (CodeUnit.nul : UInt8) ∉ [slash] := by decide
  cases h with
  | empty => exact ⟨hmark.1, hmark.1⟩
  | root n => exact ⟨hmark.2, hmark.2⟩
  | bare _ _ n =>
    rw [List.mem_append, not_or] at hnul
    exact ⟨hmark.1, hnul.1⟩
  | top _ _ m n =>
    simp only [List.mem_append, not_or] at hnul
    exact ⟨hmark.2, hnul.2.1⟩
  | under _ _ _ _ m n =>
    simp only [List.mem_append, List.mem_cons, not_or] at hnul
    exact ⟨hnul.1, hnul.2.2.2.1⟩

theorem no_nul_parts (path : List UInt8) :
    CodeUnit.nul ∉ dirname path ∧ CodeUnit.nul ∉ basename path :=
  (parted path).no_nul (CString.nul_notMem_content path)

theorem clean_parts (path : List UInt8) :
    clean (dirname path ++ slash :: basename path) = clean path := by
  have h := parted path
  have hslash : (CodeUnit.nul : UInt8) ≠ slash := by decide
  have hnul : CodeUnit.nul ∉ dirname path ++ slash :: basename path := by
    rw [List.mem_append, List.mem_cons, not_or, not_or]
    exact ⟨(no_nul_parts path).1, hslash, (no_nul_parts path).2⟩
  rw [clean_eq, clean_eq, CString.content_eq_self hnul, walk, walk,
    isAbsolute_append_of_ne_nil h.dir_ne_nil, h.isAbsolute_eq, h.foldl_push_eq]

theorem Parted.slash_notMem_or (h : Parted path dir name) : slash ∉ name ∨ name = [slash] := by
  cases h with
  | empty => exact .inl (by decide)
  | root n => exact .inr rfl
  | bare _ hslash _ | top _ hslash _ _ | under _ _ _ hslash _ _ => exact .inl hslash

theorem Parted.getLast?_ne_or (h : Parted path dir name) :
    dir.getLast? ≠ some slash ∨ dir = [slash] := by
  cases h with
  | empty | bare _ _ _ => exact .inl (by decide)
  | root _ | top _ _ _ _ => exact .inr rfl
  | under _ hend _ _ _ _ => exact .inl hend

/-! ## Going up -/

/-- The directory that no other is above: the root or the dot. -/
def topmost (path : List UInt8) : List UInt8 := if isAbsolute path then [slash] else dot

theorem dirname_topmost (path : List UInt8) : dirname (topmost path) = topmost path := by
  rw [topmost]
  cases isAbsolute path <;> rfl

theorem Parted.dir_eq_topmost_or (h : Parted path dir name) :
    dir = topmost path ∨ dir.length < path.length := by
  cases h with
  | empty => exact .inl rfl
  | root n => exact .inl rfl
  | bare hname hslash n =>
    rw [topmost, isAbsolute_append_of_ne_nil hname, isAbsolute_of_notMem hslash]
    exact .inl rfl
  | top _ _ m n => exact .inl rfl
  | under _ _ _ _ m n =>
    rw [List.length_append, List.length_cons]
    exact .inr (by omega)

theorem topmost_dirname (path : List UInt8) : topmost (dirname path) = topmost path := by
  rw [topmost, (parted path).isAbsolute_eq, isAbsolute_content, topmost]

theorem iterate_dirname {n : Nat} (hn : (CString.content path).length < n) :
    dirname^[n] path = topmost path := by
  induction n generalizing path with
  | zero => exact absurd hn (Nat.not_lt_zero _)
  | succ n ih =>
    rw [Function.iterate_succ_apply]
    rcases (parted path).dir_eq_topmost_or with htop | hshorter
    · rw [htop, topmost, isAbsolute_content, ← topmost,
        Function.iterate_fixed (dirname_topmost path)]
    · have hcontent := CString.content_length_le (dirname path)
      rw [ih (by omega), topmost_dirname]

/-- Put together with a slash, the directory and the last component of a path have the clean form of
the path. Neither is empty or holds a terminator. There is no slash in the last component and none
at the end of the directory, unless that is nothing but a slash. Taking directories ends at the root
if the path is rooted, and else at the dot, after no more steps than one for each byte and one more.
The searches from the end that find the two parts never leave the path. -/
theorem directory_and_name_rejoin (path : List UInt8) :
    cleanInPlace (dirname path ++ slash :: basename path) = cleanInPlace path ∧
      (dirname path ≠ [] ∧ CodeUnit.nul ∉ dirname path) ∧
      (basename path ≠ [] ∧ CodeUnit.nul ∉ basename path) ∧
      (slash ∉ basename path ∨ basename path = [slash]) ∧
      ((dirname path).getLast? ≠ some slash ∨ dirname path = [slash]) ∧
      (∀ n, dirname^[(CString.content path).length + 1 + n] path =
        if isAbsolute path then [slash] else dot) ∧
      (path.length < Checked.countLimit →
        Checked.dirname path = .ok (dirname path) ∧
          Checked.basename path = .ok (basename path)) := by
  have h := parted path
  have hnul := no_nul_parts path
  refine ⟨?_, ⟨h.dir_ne_nil, hnul.1⟩, ⟨h.name_ne_nil, hnul.2⟩, h.slash_notMem_or,
    h.getLast?_ne_or, fun n => iterate_dirname (by omega),
    fun hlen => ⟨Checked.dirname_eq hlen, Checked.basename_eq hlen⟩⟩
  rw [cleanInPlace_eq, cleanInPlace_eq, clean_parts]

/-- A path with more slashes than it needs in all places where slashes can be. -/
theorem directory_and_name_rejoin_sample :
    Checked.dirname (Ascii.bytes "//a//..//") = .ok (Ascii.bytes "//a") ∧
      Checked.basename (Ascii.bytes "//a//..//") = .ok (Ascii.bytes "..") ∧
      cleanInPlace (Ascii.bytes "//a/..") = cleanInPlace (Ascii.bytes "//a//..//") := by
  obtain ⟨hrejoin, -, -, -, -, -, hchecked⟩ := directory_and_name_rejoin (Ascii.bytes "//a//..//")
  obtain ⟨hdir, hname⟩ := hchecked (by decide)
  exact ⟨hdir, hname, hrejoin⟩

end CText.Path
