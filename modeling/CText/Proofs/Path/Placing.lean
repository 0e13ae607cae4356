import CText.Path.Resolve
import CText.Proofs.Path.Clean

/-!
# The path put together for a file

What a file is made absolute to is the clean form of one path, put together from the file, the
reference and the working directory. That path says everything: whether the working directory is
asked for, which failure comes of it, and how much memory is needed.
-/

namespace CText.Path

variable {file whole : List UInt8} {reference : Option (List UInt8)} {cwd : WorkingDirectory}

/-- What comes of making something in a buffer of `size` bytes: it is made unless no buffer has as
many. -/
inductive MadeIn {α : Type} (size : Nat) (made : α) : Except Error α → Prop where
  | granted (fits : size ≤ maxReservation) : MadeIn size made (.ok made)
  | refused {bytes : Nat} (large : maxReservation < size) (told : maxReservation < bytes) :
      MadeIn size made (.error (.allocationFailure bytes))

section

variable {α β : Type} {size : Nat} {made : α} {result : Except Error α}

theorem madeIn_reserve (size : Nat) (made : α) :
    MadeIn size made ((reserve 1 size).map fun _ => made) := by
  by_cases h : size * 1 ≤ maxReservation
  · rw [reserve_granted h]
    exact .granted (by omega)
  · rw [reserve_refused h]
    have hlargest : maxReservation < 18446744073709551615 := by decide
    exact .refused (by omega) (by omega)

theorem MadeIn.map (h : MadeIn size made result) (f : α → β) :
    MadeIn size (f made) (result.map f) := by
  cases h with
  | granted fits => exact .granted fits
  | refused large told => exact .refused large told

/-- What is made first is no larger than what is made of it. -/
theorem MadeIn.bind (h : MadeIn size made result) {f : α → Except Error β} {size' : Nat}
    {made' : β} (hle : size ≤ size') (hf : MadeIn size' made' (f made)) :
    MadeIn size' made' (result >>= f) := by
  cases h with
  | granted fits => exact hf
  | refused large told => exact .refused (Nat.lt_of_lt_of_le large hle) told

theorem MadeIn.eq_ok (h : MadeIn size made result) (fits : size ≤ maxReservation) :
    result = .ok made := by
  cases h with
  | granted _ => rfl
  | refused large _ => exact absurd fits (Nat.not_le_of_lt large)

theorem MadeIn.of_eq_ok {value : α} (h : MadeIn size made result) (hok : result = .ok value) :
    size ≤ maxReservation ∧ value = made := by
  cases h with
  | granted fits => exact ⟨fits, (Except.ok.inj hok).symm⟩
  | refused _ _ => cases hok

end

/-- The directory that a relative file is put under. -/
def directory (reference : Option (List UInt8)) (cwd : WorkingDirectory) :
    Except Error (List UInt8) :=
  match reference with
  | none => cwd
  | some r =>
    if isAbsolute r then .ok (CString.content r)
    else cwd.map fun dir => dir ++ slash :: CString.content r

/-- The path put together for a file, not cleaned yet and with no thought of memory. -/
def placed (file : List UInt8) (reference : Option (List UInt8)) (cwd : WorkingDirectory) :
    Except Error (List UInt8) :=
  if isAbsolute file then .ok (CString.content file)
  else (directory reference cwd).map fun base => base ++ slash :: CString.content file

/-- Neither the file nor a reference says where it is. -/
def NeedsDirectory (file : List UInt8) (reference : Option (List UInt8)) : Prop :=
  isAbsolute file = false ∧ ∀ r, reference = some r → isAbsolute r = false

/-- The path put together for the file is not longer than a buffer can be. -/
def Fits (file : List UInt8) (reference : Option (List UInt8)) (cwd : WorkingDirectory) : Prop :=
  ∀ whole, placed file reference cwd = .ok whole → whole.length ≤ maxReservation

theorem placed_of_relative (hfile : isAbsolute file = false) :
    placed file reference cwd =
      (directory reference cwd).map fun base => base ++ slash :: CString.content file := by
  rw [placed, hfile, if_neg Bool.false_ne_true]

theorem placed_of_isAbsolute (hfile : isAbsolute file = true) :
    placed file reference cwd = .ok (CString.content file) := by
  rw [placed, if_pos hfile]

/-- A reference is itself a file that is placed, and a relative file goes under it. -/
theorem placed_under {r base : List UInt8} (hfile : isAbsolute file = false)
    (hbase : placed r none cwd = .ok base) :
    placed file (some r) cwd = .ok (base ++ slash :: CString.content file) := by
  have hdirectory : directory (some r) cwd = placed r none cwd := rfl
  rw [placed_of_relative hfile, hdirectory, hbase]
  rfl

theorem placed_eq_error_iff {e : Error} :
    placed file reference cwd = .error e ↔ NeedsDirectory file reference ∧ cwd = .error e := by
  cases hfile : isAbsolute file with
  | true => simp [placed, NeedsDirectory, hfile]
  | false =>
    cases reference with
    | none => cases cwd <;> simp [placed, directory, NeedsDirectory, hfile, Except.map]
    | some r =>
      cases hr : isAbsolute r <;> cases cwd <;>
        simp [placed, directory, NeedsDirectory, hfile, hr, Except.map]

/-- What holds of the working directory, of the content of rooted strings and of what is put under a
directory of which it holds, holds of every path put together. The strings may be taken to have any
property of the file and of the reference. -/
theorem placed_induction {P Q : List UInt8 → Prop} (hfile : Q file)
    (hreference : ∀ r ∈ reference, Q r) (hcwd : ∀ dir, cwd = .ok dir → P dir)
    (rooted : ∀ s, Q s → isAbsolute s = true → P (CString.content s))
    (under : ∀ base s, P base → Q s → P (base ++ slash :: CString.content s))
    (h : placed file reference cwd = .ok whole) : P whole := by
  have hdirectory : ∀ base, directory reference cwd = .ok base → P base := by
    intro base hbase
    cases reference with
    | none => exact hcwd base hbase
    | some r =>
      rw [directory] at hbase
      split at hbase
      · rename_i hr
        cases hbase
        exact rooted r (hreference r rfl) hr
      · cases hdir : cwd with
        | error e =>
          rw [hdir] at hbase
          cases hbase
        | ok dir =>
          rw [hdir] at hbase
          cases hbase
          exact under dir r (hcwd dir hdir) (hreference r rfl)
  rw [placed] at h
  split at h
  · rename_i habsolute
    cases h
    exact rooted file hfile habsolute
  · cases hbase : directory reference cwd with
    | error e =>
      rw [hbase] at h
      cases h
    | ok base =>
      rw [hbase] at h
      cases h
      exact under base file (hdirectory base hbase) hfile

theorem isAbsolute_of_placed (hcwd : ∀ dir, cwd = .ok dir → isAbsolute dir = true)
    (h : placed file reference cwd = .ok whole) : isAbsolute whole = true := by
  refine placed_induction trivial (fun _ _ => trivial) hcwd ?_ ?_ h
  · intro s _ hs
    rw [isAbsolute_content, hs]
  · intro base s hbase _
    exact isAbsolute_append hbase _

theorem nul_notMem_of_placed (hcwd : ∀ dir, cwd = .ok dir → CodeUnit.nul ∉ dir)
    (h : placed file reference cwd = .ok whole) : CodeUnit.nul ∉ whole := by
  have hslash : CodeUnit.nul ≠ slash := by decide
  refine placed_induction trivial (fun _ _ => trivial) hcwd ?_ ?_ h
  · intro s _ _
    exact CString.nul_notMem_content s
  · intro base s hbase _
    rw [List.mem_append, List.mem_cons, not_or, not_or]
    exact ⟨hbase, hslash, CString.nul_notMem_content s⟩

theorem join_madeIn (dir file : List UInt8) :
    MadeIn (dir ++ slash :: file).length (dir ++ slash :: file) (join dir file) := by
  have hsize : (dir ++ slash :: file).length = dir.length + 1 + file.length := by
    rw [List.length_append, List.length_cons]
    omega
  rw [hsize]
  exact madeIn_reserve _ _

theorem absolute_of_isAbsolute (hfile : isAbsolute file = true)
    (reference : Option (List UInt8)) (cwd : WorkingDirectory) :
    absolute file reference cwd =
      (reserve 1 (CString.content file).length).map fun _ => clean file := by
  rw [absolute, isAbsolute_content, if_pos hfile, clean_content]
  rfl

theorem absolute_under {dir : List UInt8} (hfile : isAbsolute file = false)
    (hdir : isAbsolute dir = true) (cwd : WorkingDirectory) :
    absolute file (some dir) cwd =
      (reserve 1 ((CString.content dir).length + 1 + (CString.content file).length)).map
        fun _ => clean (CString.content dir ++ slash :: CString.content file) := by
  have hcontent : isAbsolute (CString.content dir) = true := (isAbsolute_content dir).trans hdir
  rw [absolute, isAbsolute_content, hfile, if_neg Bool.false_ne_true, Option.map_some]
  dsimp only
  rw [if_pos hcontent, join]
  cases reserve 1 ((CString.content dir).length + 1 + (CString.content file).length) <;> rfl

/-- A rooted file, and a file under a rooted reference, is where it is whatever the working
directory. -/
theorem absolute_elsewhere (hneeds : ¬ NeedsDirectory file reference)
    (elsewhere cwd : WorkingDirectory) :
    absolute file reference elsewhere = absolute file reference cwd := by
  cases hfile : isAbsolute file with
  | true => rw [absolute_of_isAbsolute hfile, absolute_of_isAbsolute hfile]
  | false =>
    cases reference with
    | none => exact absurd ⟨hfile, fun r hr => nomatch hr⟩ hneeds
    | some r =>
      cases hr : isAbsolute r with
      | true => rw [absolute_under hfile hr, absolute_under hfile hr]
      | false =>
        refine absurd ⟨hfile, ?_⟩ hneeds
        rintro _ ⟨⟩
        exact hr

/-- The call cleans the path put together, in a buffer of its length. -/
theorem absolute_madeIn (h : placed file reference cwd = .ok whole) :
    MadeIn whole.length (clean whole) (absolute file reference cwd) := by
  cases hfile : isAbsolute file with
  | true =>
    rw [placed_of_isAbsolute hfile] at h
    cases h
    rw [absolute_of_isAbsolute hfile, clean_content]
    exact madeIn_reserve _ _
  | false =>
    have hlast : ∀ base, MadeIn (base ++ slash :: CString.content file).length
        (clean (base ++ slash :: CString.content file))
        (join base (CString.content file) >>= fun path => pure (clean path)) := by
      intro base
      rw [bind_pure_comp]
      exact (join_madeIn base _).map clean
    rw [placed_of_relative hfile] at h
    rw [absolute, isAbsolute_content, hfile, if_neg Bool.false_ne_true]
    cases reference with
    | none =>
      cases cwd with
      | error e => cases h
      | ok dir =>
        cases h
        exact hlast dir
    | some r =>
      rw [Option.map_some]
      dsimp only
      rw [isAbsolute_content]
      cases hr : isAbsolute r with
      | true =>
        rw [directory, if_pos hr] at h
        cases h
        exact hlast (CString.content r)
      | false =>
        rw [directory, hr, if_neg Bool.false_ne_true] at h
        cases cwd with
        | error e => cases h
        | ok dir =>
          cases h
          have hle : (dir ++ slash :: CString.content r).length ≤
              (dir ++ slash :: CString.content r ++ slash :: CString.content file).length :=
            (List.prefix_append _ _).length_le
          exact (join_madeIn dir _).bind hle (hlast _)

theorem absolute_error {e : Error} (h : placed file reference cwd = .error e) :
    absolute file reference cwd = .error e := by
  obtain ⟨⟨hfile, hreference⟩, rfl⟩ := placed_eq_error_iff.1 h
  rw [absolute, isAbsolute_content, hfile, if_neg Bool.false_ne_true]
  cases reference with
  | none => rfl
  | some r =>
    rw [Option.map_some]
    dsimp only
    rw [isAbsolute_content, hreference r rfl]
    rfl

theorem Fits.absolute_eq (fits : Fits file reference cwd) :
    absolute file reference cwd = (placed file reference cwd).map clean := by
  cases hplaced : placed file reference cwd with
  | error e => exact absolute_error hplaced
  | ok whole => exact (absolute_madeIn hplaced).eq_ok (fits whole hplaced)

/-- What a call gives is the clean form of the path put together. -/
theorem exists_placed {path : List UInt8} (h : absolute file reference cwd = .ok path) :
    ∃ whole, placed file reference cwd = .ok whole ∧ whole.length ≤ maxReservation ∧
      path = clean whole := by
  cases hplaced : placed file reference cwd with
  | error e =>
    rw [absolute_error hplaced] at h
    cases h
  | ok whole => exact ⟨whole, rfl, (absolute_madeIn hplaced).of_eq_ok h⟩

theorem exists_refused (hfits : ¬ Fits file reference cwd) :
    ∃ bytes, maxReservation < bytes ∧
      absolute file reference cwd = .error (.allocationFailure bytes) := by
  obtain ⟨whole, hwhole⟩ := Classical.not_forall.1 hfits
  obtain ⟨hplaced, hlarge⟩ := Classical.not_imp.1 hwhole
  generalize hresult : absolute file reference cwd = result
  have hmade := absolute_madeIn hplaced
  rw [hresult] at hmade
  cases hmade with
  | granted fits => exact absurd fits hlarge
  | refused _ told => exact ⟨_, told, rfl⟩

end CText.Path
