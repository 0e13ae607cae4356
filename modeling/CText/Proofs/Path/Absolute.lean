import CText.Proofs.Path.InPlace
import CText.Proofs.Path.Placing

/-!
# Absolute paths are places

A clean rooted path is a place, given by the names that lead there from the root. What a file is
made absolute to is a place as long as the working directory is rooted, and under a place a relative
path is walked from the names of that place on. That a rooted path may be cleaned before another is
put under it makes the laws of absolute paths. One of them has an exception. A working directory may
be told with a terminator in it, and what is put under it is lost then.
-/

namespace CText.Path

variable {file path whole R : List UInt8} {reference : Option (List UInt8)} {cwd : WorkingDirectory}
  {names : List (List UInt8)}

/-- What a file is made absolute to is a place. -/
theorem exists_place (hcwd : ∀ dir, cwd = .ok dir → isAbsolute dir = true)
    (h : absolute file reference cwd = .ok path) : ∃ names, Canonical true names 0 path := by
  obtain ⟨whole, hplaced, -, rfl⟩ := exists_placed h
  obtain ⟨names, ups, hcanonical⟩ := canonical_clean whole
  rw [isAbsolute_of_placed hcwd hplaced] at hcanonical
  have hups := hcanonical.isStack.rooted_ups rfl
  subst hups
  exact ⟨names, hcanonical⟩

/-- From a place a relative path leads where the walk over it ends. -/
theorem absolute_from (hR : Canonical true names 0 R) (hfile : isAbsolute file = false)
    (cwd : WorkingDirectory) :
    absolute file (some R) cwd =
      (reserve 1 (R.length + 1 + (CString.content file).length)).map fun _ =>
        ofComponents true ((split (CString.content file)).foldl (push true) names).reverse := by
  have hnul : CodeUnit.nul ∉ R := by
    rw [← hR.content_eq]
    exact CString.nul_notMem_content R
  rw [absolute_under hfile hR.isAbsolute_eq, hR.content_eq, clean_under hR.isAbsolute_eq hnul,
    CString.content_content, hR.walk_eq, stack_zero]

/-- A clean rooted path that fits into a buffer is what it is made absolute to, from anywhere. -/
theorem absolute_clean (hwhole : isAbsolute whole = true) (fits : whole.length ≤ maxReservation)
    (other : Option (List UInt8)) (elsewhere : WorkingDirectory) :
    absolute (clean whole) other elsewhere = .ok (clean whole) := by
  have hlen := length_clean_le_of_isAbsolute hwhole
  rw [absolute_of_isAbsolute ((isAbsolute_clean whole).trans hwhole), content_clean, clean_clean,
    reserve_granted (by omega)]
  rfl

/-- If there is memory to put a file under a directory, there is to put it under the clean form. -/
theorem absolute_under_cleaned {r base : List UInt8} (hfile : isAbsolute file = false)
    (hbase : placed r none cwd = .ok base) (habsolute : isAbsolute base = true)
    (fits : Fits file (some r) cwd) :
    absolute file (some (clean base)) cwd =
      .ok (clean (clean base ++ slash :: CString.content file)) := by
  have hclean : placed (clean base) none cwd = .ok (clean base) := by
    rw [placed_of_isAbsolute ((isAbsolute_clean base).trans habsolute), content_clean]
  have hcleaned := placed_under hfile hclean
  have hfits : Fits file (some (clean base)) cwd := by
    intro whole hwhole
    have hlarge := fits _ (placed_under hfile hbase)
    have hlen := length_clean_le_of_isAbsolute habsolute
    rw [hcleaned] at hwhole
    cases hwhole
    rw [List.length_append] at hlarge ⊢
    omega
  rw [hfits.absolute_eq, hcleaned]
  rfl

/-- Under a clean directory a file is placed where it is under the directory itself. -/
theorem absolute_under_clean {r base : List UInt8} (hfile : isAbsolute file = false)
    (hbase : placed r none cwd = .ok base) (habsolute : isAbsolute base = true)
    (hnul : CodeUnit.nul ∉ base) (fits : Fits file (some r) cwd) :
    absolute file (some r) cwd = absolute file (some (clean base)) cwd := by
  rw [absolute_under_cleaned hfile hbase habsolute fits, fits.absolute_eq,
    placed_under hfile hbase]
  exact congrArg Except.ok (clean_under_clean habsolute hnul _).symm

/-- A reference that is made absolute first leads to the same path. If it is put under the working
directory, that has to be told in full. -/
theorem absolute_through {dir r : List UInt8} (hdir : isAbsolute dir = true)
    (hnul : NeedsDirectory file (some r) → CodeUnit.nul ∉ dir) (hr : Fits r none (.ok dir))
    (fits : Fits file (some r) (.ok dir)) :
    ∃ R, absolute r none (.ok dir) = .ok R ∧
      absolute file (some r) (.ok dir) = absolute file (some R) (.ok dir) := by
  cases hbase : placed r none (.ok dir) with
  | error e => cases (placed_eq_error_iff.1 hbase).2
  | ok base =>
    refine ⟨clean base, by rw [hr.absolute_eq, hbase]; rfl, ?_⟩
    cases hfile : isAbsolute file with
    | true => rw [absolute_of_isAbsolute hfile, absolute_of_isAbsolute hfile]
    | false =>
      have habsolute : isAbsolute base = true := by
        refine isAbsolute_of_placed ?_ hbase
        rintro _ ⟨⟩
        exact hdir
      refine absolute_under_clean hfile hbase habsolute ?_ fits
      cases hrooted : isAbsolute r with
      | true =>
        rw [placed_of_isAbsolute hrooted] at hbase
        cases hbase
        exact CString.nul_notMem_content r
      | false =>
        have hneeds : NeedsDirectory file (some r) := by
          refine ⟨hfile, ?_⟩
          rintro _ ⟨⟩
          exact hrooted
        refine nul_notMem_of_placed ?_ hbase
        rintro _ ⟨⟩
        exact hnul hneeds

/-- A working directory told with a terminator in it ends there, and what is put under it is
lost. -/
theorem absolute_of_nul_mem {dir path : List UInt8} (hnul : CodeUnit.nul ∈ dir)
    (hneeds : NeedsDirectory file reference)
    (h : absolute file reference (.ok dir) = .ok path) : path = clean dir := by
  obtain ⟨front, behind, rfl, hfront⟩ := List.eq_append_cons_of_mem hnul
  have hcut : ∀ rest, CString.content (front ++ CodeUnit.nul :: rest) = front := by
    intro rest
    rw [CString.content_append hfront, CString.content_cons_nul, List.append_nil]
  obtain ⟨whole, hplaced, -, rfl⟩ := exists_placed h
  obtain ⟨rest, rfl⟩ : ∃ rest, whole = front ++ CodeUnit.nul :: rest := by
    obtain ⟨hfile, hreference⟩ := hneeds
    rw [placed_of_relative hfile] at hplaced
    cases reference with
    | none =>
      cases hplaced
      exact ⟨_, List.append_assoc _ _ _⟩
    | some r =>
      rw [directory, hreference r rfl, if_neg Bool.false_ne_true] at hplaced
      cases hplaced
      refine ⟨behind ++ slash :: CString.content r ++ slash :: CString.content file, ?_⟩
      simp only [List.append_assoc, List.cons_append]
  rw [← clean_content, hcut, ← clean_content (front ++ _), hcut]

example : absolute (Ascii.bytes "x") none (.ok [47, 97, 0]) = .ok (Ascii.bytes "/a") := rfl

/-- The file goes under a working directory that is told with a terminator in it, and does not lead
back to that directory. -/
def LosesFile (file r dir : List UInt8) : Prop :=
  NeedsDirectory file (some r) ∧ CodeUnit.nul ∈ dir ∧
    clean (CString.content dir ++ slash :: CString.content file) ≠ clean dir

/-- A directory that is fixed is told up to its terminator. -/
theorem not_losesFile_of_fixedDirectory {bytes dir r : List UInt8}
    (h : fixedDirectory bytes = .ok dir) : ¬ LosesFile file r dir := by
  obtain rfl : CString.content bytes = dir := eq_of_reserve_map h
  exact fun hloses => CString.nul_notMem_content bytes hloses.2.1

/-- Under a working directory with a terminator in it the file is lost with the reference. If the
reference is made absolute first, that alone is lost, and the file goes under what is left of the
directory. -/
theorem absolute_through_cut {dir r : List UInt8} (hdir : isAbsolute dir = true)
    (hneeds : NeedsDirectory file (some r)) (hnul : CodeUnit.nul ∈ dir)
    (hr : Fits r none (.ok dir)) (fits : Fits file (some r) (.ok dir)) :
    absolute r none (.ok dir) = .ok (clean dir) ∧
      absolute file (some r) (.ok dir) = .ok (clean dir) ∧
      absolute file (some (clean dir)) (.ok dir) =
        .ok (clean (CString.content dir ++ slash :: CString.content file)) := by
  have hrelative : isAbsolute r = false := hneeds.2 r rfl
  have hbase : placed r none (.ok dir) = .ok (dir ++ slash :: CString.content r) :=
    placed_of_relative hrelative
  have hreference : absolute r none (.ok dir) = .ok (clean (dir ++ slash :: CString.content r)) := by
    rw [hr.absolute_eq, hbase]
    rfl
  have hneedsAlone : NeedsDirectory r none := ⟨hrelative, fun _ h => nomatch h⟩
  have hcut : clean (dir ++ slash :: CString.content r) = clean dir :=
    absolute_of_nul_mem hnul hneedsAlone hreference
  refine ⟨hcut ▸ hreference, ?_, ?_⟩
  · have hfile : absolute file (some r) (.ok dir) =
        .ok (clean (dir ++ slash :: CString.content r ++ slash :: CString.content file)) := by
      rw [fits.absolute_eq, placed_under hneeds.1 hbase]
      rfl
    rw [hfile, absolute_of_nul_mem hnul hneeds hfile]
  · have hcleaned := absolute_under_cleaned hneeds.1 hbase (isAbsolute_append hdir _) fits
    have hcontent := clean_under_clean ((isAbsolute_content dir).trans hdir)
      (CString.nul_notMem_content dir) (CString.content file)
    rw [clean_content] at hcontent
    rw [hcut, hcontent] at hcleaned
    exact hcleaned

/-- A reference may be made absolute first just if the file is not lost. -/
theorem absolute_through_iff {dir r : List UInt8} (hdir : isAbsolute dir = true)
    (hr : Fits r none (.ok dir)) (fits : Fits file (some r) (.ok dir)) :
    ∃ R, absolute r none (.ok dir) = .ok R ∧
      (absolute file (some r) (.ok dir) = absolute file (some R) (.ok dir) ↔
        ¬ LosesFile file r dir) := by
  by_cases hcut : NeedsDirectory file (some r) ∧ CodeUnit.nul ∈ dir
  · -- Both sides are known, and they are equal just if the file leads back to the directory.
    obtain ⟨hneeds, hnul⟩ := hcut
    obtain ⟨hreference, hlost, hkept⟩ := absolute_through_cut hdir hneeds hnul hr fits
    refine ⟨clean dir, hreference, ?_⟩
    rw [hlost, hkept, Except.ok.injEq]
    constructor
    · exact fun h hloses => hloses.2.2 h.symm
    · exact fun h => Classical.byContradiction fun hne => h ⟨hneeds, hnul, fun heq => hne heq.symm⟩
  · obtain ⟨R, hR, heq⟩ :=
      absolute_through hdir (fun hneeds hnul => hcut ⟨hneeds, hnul⟩) hr fits
    exact ⟨R, hR, iff_of_true heq fun hloses => hcut ⟨hloses.1, hloses.2.1⟩⟩

/-- The laws of absolute paths, for a working directory that is rooted if it can be told. A
reference may be made absolute first just if the file is not lost behind a terminator in the
working directory. -/
theorem absolute_laws (file : List UInt8) (reference : Option (List UInt8))
    (hcwd : ∀ dir, cwd = .ok dir → isAbsolute dir = true) :
    -- What comes out is rooted and clean, and is what it is made absolute to from anywhere.
    (∀ path, absolute file reference cwd = .ok path →
      isAbsolute path = true ∧ cleanInPlace path = .ok path ∧
        ∀ other elsewhere, absolute path other elsewhere = .ok path) ∧
    -- When a reference may be made absolute first.
    (∀ dir r, cwd = .ok dir → Fits r none cwd → Fits file (some r) cwd →
      ∃ R, absolute r none cwd = .ok R ∧
        (absolute file (some r) cwd = absolute file (some R) cwd ↔ ¬ LosesFile file r dir)) ∧
    -- The working directory makes a difference only where it is needed.
    (¬ NeedsDirectory file reference →
      ∀ elsewhere, absolute file reference elsewhere = absolute file reference cwd) ∧
    -- Where memory is no matter, the call fails as the working directory does if that is needed.
    (Fits file reference cwd → ∀ e, absolute file reference cwd = .error e ↔
      NeedsDirectory file reference ∧ cwd = .error e) ∧
    -- Else the memory is refused.
    (¬ Fits file reference cwd → ∃ bytes, maxReservation < bytes ∧
      absolute file reference cwd = .error (.allocationFailure bytes)) := by
  refine ⟨?clean, ?through, ?elsewhere, ?failure, exists_refused⟩
  case clean =>
    intro path hpath
    obtain ⟨whole, hplaced, fits, rfl⟩ := exists_placed hpath
    have hwhole := isAbsolute_of_placed hcwd hplaced
    refine ⟨(isAbsolute_clean whole).trans hwhole, ?_, absolute_clean hwhole fits⟩
    rw [cleanInPlace_eq, clean_clean]
  case through =>
    rintro dir r rfl hbase fits
    exact absolute_through_iff (hcwd dir rfl) hbase fits
  case elsewhere =>
    exact fun hneeds elsewhere => absolute_elsewhere hneeds elsewhere cwd
  case failure =>
    intro fits e
    rw [← placed_eq_error_iff, fits.absolute_eq]
    cases placed file reference cwd with
    | error other => exact Iff.rfl
    | ok whole =>
      constructor <;> intro h <;> cases h

/-- The laws hold of a file that leaves the reference it is under. -/
theorem absolute_laws_sample :
    let cwd := fixedDirectory (Ascii.bytes "/home/user")
    (∀ dir, cwd = .ok dir → isAbsolute dir = true) ∧
      cleanInPlace (Ascii.bytes "/home/x") = .ok (Ascii.bytes "/home/x") ∧
      ∃ R, absolute (Ascii.bytes "proj//") none cwd = .ok R ∧
        absolute (Ascii.bytes "../../x") (some R) cwd = .ok (Ascii.bytes "/home/x") := by
  intro cwd
  have htold : cwd = .ok (Ascii.bytes "/home/user") := rfl
  have hcwd : ∀ dir, cwd = .ok dir → isAbsolute dir = true := by
    rw [htold]
    rintro dir ⟨⟩
    rfl
  have hpath : absolute (Ascii.bytes "../../x") (some (Ascii.bytes "proj//")) cwd =
      .ok (Ascii.bytes "/home/x") := rfl
  have hreference : Fits (Ascii.bytes "proj//") none cwd := by
    rintro whole ⟨⟩
    decide
  have hfits : Fits (Ascii.bytes "../../x") (some (Ascii.bytes "proj//")) cwd := by
    rintro whole ⟨⟩
    decide
  obtain ⟨hclean, hthrough, -⟩ :=
    absolute_laws (Ascii.bytes "../../x") (some (Ascii.bytes "proj//")) hcwd
  obtain ⟨R, hR, hiff⟩ := hthrough _ _ htold hreference hfits
  exact ⟨hcwd, (hclean _ hpath).2.1, R, hR,
    (hiff.2 (not_losesFile_of_fixedDirectory htold)).symm.trans hpath⟩

/-- A file is lost under a working directory that is rooted but told with a terminator in it. It is
not lost if the reference is made absolute first. -/
theorem reference_lost_behind_terminator :
    let dir := Ascii.bytes "/a" ++ CodeUnit.nul :: Ascii.bytes "b"
    isAbsolute dir = true ∧
      absolute (Ascii.bytes "f") (some (Ascii.bytes "r")) (.ok dir) = .ok (Ascii.bytes "/a") ∧
      absolute (Ascii.bytes "r") none (.ok dir) = .ok (Ascii.bytes "/a") ∧
      absolute (Ascii.bytes "f") (some (Ascii.bytes "/a")) (.ok dir) =
        .ok (Ascii.bytes "/a/f") := by
  intro dir
  have hdir : isAbsolute dir = true := rfl
  have hneeds : NeedsDirectory (Ascii.bytes "f") (some (Ascii.bytes "r")) := by
    refine ⟨rfl, ?_⟩
    rintro _ ⟨⟩
    rfl
  have hr : Fits (Ascii.bytes "r") none (.ok dir) := by
    rintro whole ⟨⟩
    decide
  have fits : Fits (Ascii.bytes "f") (some (Ascii.bytes "r")) (.ok dir) := by
    rintro whole ⟨⟩
    decide
  obtain ⟨hreference, hlost, hkept⟩ := absolute_through_cut hdir hneeds (by decide) hr fits
  exact ⟨hdir, hlost, hreference, hkept⟩

end CText.Path
