import CText.Checked.Path
import CText.Proofs.Checked.CString
import CText.Proofs.Checked.Path
import CText.Proofs.Reserved.Basic

/-!
# Paths within a reservation

A path that is made absolute is joined in a buffer of its joined length and cleaned there, which
leaves it no longer unless nothing is left and a dot takes its place. A relative path has three bytes
for each step up, and the components that go down again fit into the length of the path that they
come from.
-/

namespace CText

open Escape Buffer CText.Path

namespace Reserved

def fixedDirectory (dir : List UInt8) : Except Mishap (Reserved UInt8) := do
  let dir ← step (checked (Checked.content dir))
  let b ← allocate UInt8 1 dir.length
  b.extend dir

def join (dir file : List UInt8) : Except Mishap (Reserved UInt8) := do
  let size ← step (checked (do Checked.add (← Checked.add dir.length 1) file.length))
  let b ← allocate UInt8 1 size
  let b ← b.extend dir
  let b ← b.push slash
  b.extend file

/-- A dot for a path of which nothing is left. -/
def orDot (b : Reserved UInt8) : Except Mishap (Reserved UInt8) :=
  if b.units.isEmpty then b.extend dot else .ok b

def clean (b : Reserved UInt8) : Except Mishap (Reserved UInt8) := do
  let b ← b.settle (← step (checked (Checked.content b.units)))
  let rooted := isAbsolute b.units
  let base := if rooted then 1 else 0
  let b ← b.settle (← step (checked (Checked.collapse base b.units base base b.units.length)))
  let b ← b.settle (← step (checked (Checked.resolve rooted base b.units base base 0
    b.units.length)))
  b.orDot

def absolute (file : List UInt8) (reference : Option (List UInt8))
    (cwd : Except Failure (List UInt8)) : Except Mishap (Reserved UInt8) := do
  let file ← step (checked (Checked.content file))
  if isAbsolute file then
    let b ← allocate UInt8 1 file.length
    let b ← b.extend file
    clean b
  else match reference with
    | some dir =>
      let dir ← step (checked (Checked.content dir))
      if isAbsolute dir then clean (← join dir file)
      else
        let b ← join (← step cwd) dir
        clean (← join b.units file)
    | none => clean (← join (← step cwd) file)

/-- Adds a component, after a slash unless it is the first. -/
def extendPart (b : Reserved UInt8) (part : List UInt8) : Except Mishap (Reserved UInt8) := do
  let b ← if b.units.isEmpty then pure b else b.push slash
  b.extend part

def relative (file : List UInt8) (reference : Option (List UInt8))
    (cwd : Except Failure (List UInt8)) : Except Mishap (Reserved UInt8) := do
  let file ← absolute file none cwd
  let reference ← absolute (reference.getD dot) none cwd
  let fileParts := components file.units
  let referenceParts := components reference.units
  let common := commonLength fileParts referenceParts
  let ups ← step (checked (Checked.sub referenceParts.length common))
  let rest ← step (checked (slice fileParts common fileParts.length))
  let size ← step (checked (do Checked.add (← Checked.mul ups 3) file.units.length))
  let b ← allocate UInt8 1 size
  let b ← (List.replicate ups dotdot ++ rest).foldlM extendPart b
  b.orDot

/-! ## Cleaning -/

theorem yields_content (s : List UInt8) :
    Yields (·.length ≤ s.length) (Checked.content s) := by
  rw [Checked.content_eq]
  exact yields_ok (CString.content_length_le s)

theorem yields_writeComponent (base : Nat) (buf : List UInt8) (r stop w : Nat) :
    Yields (·.1.length = buf.length) (Checked.writeComponent base buf r stop w) := by
  have hcopied (buf : List UInt8) (w : Nat) : Yields (·.1.length = buf.length) (do
      if w ≤ r then
        let written ← copyDown buf r stop w
        return (written, ← Checked.add w (← Checked.sub stop r))
      else throw .cursorOvertaken) := by
    split
    · have hcopy : Yields (·.length = buf.length) (copyDown buf r stop w) :=
        fun _ => Checked.length_copyDown
      refine hcopy.bind fun written hwritten => ?_
      exact yields_bind fun _ => yields_bind fun _ => yields_ok hwritten
    · exact yields_error _
  rw [Checked.writeComponent]
  split
  · have hstarted : Yields (·.1.length = buf.length)
        (do return (← store buf w slash, ← Checked.add w 1)) := by
      refine (yields_store buf w slash).bind fun started hstarted => ?_
      exact yields_bind fun _ => yields_ok hstarted
    refine hstarted.bind fun next hnext => ?_
    rw [← hnext]
    exact hcopied next.1 next.2
  · exact hcopied buf w

theorem yields_collapse (base : Nat) (buf : List UInt8) (r w turns : Nat) :
    Yields (·.length ≤ buf.length) (Checked.collapse base buf r w turns) := by
  induction turns generalizing buf r w with
  | zero => exact yields_take buf w
  | succ turns ih =>
    rw [Checked.collapse]
    split
    · refine yields_bind fun c => ?_
      split
      · exact yields_bind fun _ => ih buf _ w
      · refine yields_bind fun stop => yields_bind fun part => ?_
        split
        · exact ih buf stop w
        · refine (yields_writeComponent base buf r stop w).bind fun next hnext => ?_
          rw [← hnext]
          exact ih next.1 stop next.2
    · exact yields_take buf w

theorem yields_resolve (rooted : Bool) (base : Nat) (buf : List UInt8) (r w depth turns : Nat) :
    Yields (·.length ≤ buf.length) (Checked.resolve rooted base buf r w depth turns) := by
  induction turns generalizing buf r w depth with
  | zero => exact yields_take buf w
  | succ turns ih =>
    rw [Checked.resolve]
    split
    · refine yields_bind fun stop => yields_bind fun part => ?_
      split
      · refine yields_bind fun w => yields_bind fun r => ?_
        exact yields_bind fun depth => ih buf r w depth
      · split
        · exact yields_bind fun r => ih buf r w depth
        · refine (yields_writeComponent base buf r stop w).bind fun next hnext => ?_
          obtain ⟨written, w⟩ := next
          rw [← hnext]
          dsimp only
          split
          · refine yields_bind fun depth => ?_
            exact yields_bind fun r => ih written r w depth
          · refine yields_bind fun depth => ?_
            exact yields_bind fun r => ih written r w depth
    · exact yields_take buf w

theorem keepsTo_orDot {b : Reserved UInt8} (h : 0 < b.capacity) :
    KeepsTo b.orDot (.ok (if b.units.isEmpty then dot else b.units)) b.capacity := by
  rw [orDot]
  split
  next hempty =>
    have hnil : b.units = [] := List.isEmpty_iff.1 hempty
    have hfits : (b.units ++ dot).length ≤ b.capacity := by
      rw [hnil]
      exact h
    rw [extend_eq hfits]
    exact .of_units (congrArg (· ++ dot) hnil)
  next => exact .filled b

theorem keepsTo_clean {b : Reserved UInt8} (h : 0 < b.capacity) :
    KeepsTo (clean b) (checked (Checked.clean b.units)) b.capacity := by
  rw [clean, Checked.clean, checked_bind]
  refine .settle_bind (yields_content b.units).checked fun b₁ hb₁ => ?_
  dsimp only
  rw [checked_bind]
  refine .settle_bind (yields_collapse _ _ _ _ _).checked fun b₂ hb₂ => ?_
  rw [checked_bind]
  refine .settle_bind (yields_resolve _ _ _ _ _ _ _).checked fun b₃ hb₃ => ?_
  rw [← hb₁, ← hb₂, ← hb₃] at h ⊢
  exact keepsTo_orDot h

/-! ## Absolute paths -/

theorem keepsTo_fixedDirectory (dir : List UInt8) :
    KeepsTo (fixedDirectory dir) (Checked.fixedDirectory dir) (CString.content dir).length := by
  rw [fixedDirectory, Checked.fixedDirectory, Checked.content_eq]
  simp only [Checked.ok_bind, Checked.checked_ok, step_ok]
  refine .allocate ?_
  rw [extend_eq (le_of_eq rfl)]
  exact .filled _

theorem keepsTo_join (dir file : List UInt8) :
    KeepsTo (join dir file) (Checked.join dir file) (dir.length + 1 + file.length) := by
  rw [join, Checked.join]
  cases hstart : Checked.add dir.length 1 with
  | error v => exact .failed _ _
  | ok start =>
    obtain rfl := yields_add _ _ _ hstart
    rw [Checked.ok_bind]
    cases hsize : Checked.add (dir.length + 1) file.length with
    | error v => exact .failed _ _
    | ok size =>
      obtain rfl := yields_add _ _ _ hsize
      simp only [Checked.ok_bind, Checked.checked_ok, step_ok]
      refine .allocate ?_
      have hfits : (dir ++ [slash] ++ file).length ≤ dir.length + 1 + file.length := by
        rw [List.length_append, List.length_append, List.length_singleton]
      have hslash : (dir ++ [slash]).length ≤ dir.length + 1 + file.length := by simp
      have hdir : ([] ++ dir).length ≤ dir.length + 1 + file.length := by
        rw [List.nil_append]
        omega
      rw [extend_eq hdir, Checked.ok_bind, push, extend_eq hslash, Checked.ok_bind, extend_eq hfits]
      exact .of_units (List.append_cons _ _ _).symm

theorem yields_join (dir file : List UInt8) :
    Yields (·.length = dir.length + 1 + file.length) (Checked.join dir file) := by
  refine yields_bind fun size => yields_bind fun _ => yields_ok ?_
  rw [List.length_append, List.length_cons]
  omega

/-- The length of the working directory, if it can be told. -/
def directoryLength : Except Failure (List UInt8) → Nat
  | .ok dir => dir.length
  | .error _ => 0

/-- The room that is asked for to make a path absolute: the length of the path itself, or that of all
that is joined, with a slash between neighbours. -/
def absoluteRoom (file : List UInt8) (reference : Option (List UInt8))
    (cwd : Except Failure (List UInt8)) : Nat :=
  let file := CString.content file
  if isAbsolute file then file.length
  else match reference with
    | some dir =>
      let dir := CString.content dir
      if isAbsolute dir then dir.length + 1 + file.length
      else directoryLength cwd + 1 + dir.length + 1 + file.length
    | none => directoryLength cwd + 1 + file.length

/-- A joined path, cleaned. -/
theorem keepsTo_joined (dir file : List UInt8) :
    KeepsTo (do clean (← join dir file)) (do checked (Checked.clean (← Checked.join dir file)))
      (dir.length + 1 + file.length) := by
  refine (keepsTo_join dir file).bind fun b _ hroom => ?_
  rw [← hroom]
  exact keepsTo_clean (by omega)

theorem keepsTo_absolute (file : List UInt8) (reference : Option (List UInt8))
    (cwd : Except Failure (List UInt8)) :
    KeepsTo (absolute file reference cwd) (Checked.absolute file reference cwd)
      (absoluteRoom file reference cwd) := by
  rw [absolute, Checked.absolute, Checked.content_eq]
  simp only [absoluteRoom, Checked.ok_bind, Checked.checked_ok, step_ok]
  generalize CString.content file = file
  split
  next habsolute =>
    have hpos : 0 < file.length := by
      cases file with
      | nil => cases habsolute
      | cons c file => exact Nat.succ_pos _
    refine .allocate ?_
    rw [extend_eq (le_of_eq rfl)]
    exact keepsTo_clean hpos
  next =>
    cases reference with
    | none =>
      cases cwd with
      | error f => exact .failed f _
      | ok cwd => exact keepsTo_joined cwd file
    | some dir =>
      simp only [Checked.content_eq]
      generalize CString.content dir = dir
      simp only [Checked.ok_bind, Checked.checked_ok, step_ok]
      split
      next => exact keepsTo_joined dir file
      next =>
        cases cwd with
        | error f => exact .failed f _
        | ok cwd =>
          refine (keepsTo_join cwd dir).bind fun b hb _ => ?_
          have hjoined := keepsTo_joined b.units file
          rw [yields_join cwd dir b.units hb] at hjoined
          exact hjoined

/-! ## Relative paths -/

theorem weight_components_le (path : List UInt8) : weight (components path) ≤ path.length + 1 :=
  calc weight (components path)
    _ ≤ weight (split path) := weight_le_of_sublist List.filter_sublist
    _ = path.length + 1 := weight_fields _

theorem length_joinWith_le_of_append {done parts : List (List UInt8)} (h : done ≠ []) :
    (joinWith slash done).length ≤ (joinWith slash (done ++ parts)).length := by
  have hdone : (joinWith slash done).length + 1 = weight done := length_joinWith h
  have hwhole : (joinWith slash (done ++ parts)).length + 1 = weight (done ++ parts) :=
    length_joinWith (List.append_ne_nil_of_left_ne_nil h _)
  rw [weight_append] at hwhole
  omega

/-- A component more is added as it is joined to those before, if there is room for it. -/
theorem extendPart_eq {b : Reserved UInt8} {done : List (List UInt8)} {part : List UInt8}
    (hdone : b.units = joinWith slash done) (hparts : [] ∉ done)
    (hfits : (joinWith slash (done ++ [part])).length ≤ b.capacity) :
    b.extendPart part = .ok ⟨b.capacity, joinWith slash (done ++ [part]), hfits⟩ := by
  have hjoined : joinWith slash (done ++ [part]) =
      b.units ++ ((if done = [] then [] else [slash]) ++ part) := by
    rw [hdone]
    exact joinWith_concat done part
  have hempty : b.units = [] ↔ done = [] := by
    rw [hdone]
    exact joinWith_eq_nil_iff hparts
  rw [extendPart]
  by_cases hfirst : done = []
  · rw [if_pos (List.isEmpty_iff.2 (hempty.2 hfirst))]
    exact extend_eq_of_append (by rw [hjoined, if_pos hfirst, List.nil_append]) hfits
  · have hslash : (b.units ++ [slash]).length ≤ b.capacity := by
      rw [hjoined, if_neg hfirst, ← List.append_assoc, List.length_append] at hfits
      omega
    have hadded : b.units ++ [slash] ++ part = joinWith slash (done ++ [part]) := by
      rw [hjoined, if_neg hfirst, List.append_assoc]
    rw [if_neg fun h => hfirst (hempty.1 (List.isEmpty_iff.1 h)), push, extend_eq hslash]
    exact @extend_eq_of_append _ ⟨b.capacity, b.units ++ [slash], hslash⟩ _ _ hadded hfits

/-- Components are added as they are joined, if there is room for all of them. -/
theorem foldlM_extendPart_eq {b : Reserved UInt8} {done parts : List (List UInt8)}
    (hdone : b.units = joinWith slash done) (hparts : [] ∉ done ++ parts)
    (hfits : (joinWith slash (done ++ parts)).length ≤ b.capacity) :
    parts.foldlM extendPart b = .ok ⟨b.capacity, joinWith slash (done ++ parts), hfits⟩ := by
  induction parts generalizing b done with
  | nil =>
    obtain ⟨capacity, units, fits⟩ := b
    subst hdone
    simp only [List.append_nil]
    rfl
  | cons part rest ih =>
    have hassoc : done ++ part :: rest = done ++ [part] ++ rest := List.append_cons _ _ _
    simp only [hassoc] at hparts hfits ⊢
    have hnext : (joinWith slash (done ++ [part])).length ≤ b.capacity :=
      Nat.le_trans (length_joinWith_le_of_append (by simp)) hfits
    have hbefore : [] ∉ done := fun h => hparts (by simp [h])
    rw [List.foldlM_cons, extendPart_eq hdone hbefore hnext]
    exact @ih ⟨b.capacity, joinWith slash (done ++ [part]), hnext⟩ (done ++ [part]) rfl hparts hfits

/-- The room that is asked for to find a path relative to another: three bytes for each step up, and
the length of the absolute path. -/
def relativeRoom (file : List UInt8) (reference : Option (List UInt8))
    (cwd : Except Failure (List UInt8)) : Nat :=
  match Checked.absolute file none cwd, Checked.absolute (reference.getD dot) none cwd with
  | .ok file, .ok reference =>
    ((components reference).length - commonLength (components file) (components reference)) * 3 +
      file.length
  | _, _ => 0

theorem yields_clean (path : List UInt8) : Yields (0 < ·.length) (Checked.clean path) := by
  refine yields_bind fun path => yields_bind fun path => ?_
  refine yields_bind fun path => yields_ok ?_
  split
  next => decide
  next hempty =>
    rw [List.isEmpty_iff] at hempty
    exact List.length_pos_iff.2 hempty

theorem yields_absolute (file : List UInt8) (reference : Option (List UInt8))
    (cwd : Except Failure (List UInt8)) :
    Yields (0 < ·.length) (Checked.absolute file reference cwd) := by
  have hjoined (dir file : List UInt8) : Yields (0 < ·.length)
      (do checked (Checked.clean (← Checked.join dir file))) :=
    yields_bind fun whole => (yields_clean whole).checked
  refine yields_bind fun file => ?_
  split
  next => exact yields_bind fun _ => (yields_clean file).checked
  next =>
    split
    next dir =>
      refine yields_bind fun dir => ?_
      split
      next => exact hjoined dir file
      next =>
        refine yields_bind fun cwd => ?_
        exact yields_bind fun base => hjoined base file
    next => exact yields_bind fun cwd => hjoined cwd file

theorem yields_size (ups len : Nat) :
    Yields (· = ups * 3 + len) (do Checked.add (← Checked.mul ups 3) len) := by
  refine (yields_mul ups 3).bind fun steps hsteps => ?_
  rw [← hsteps]
  exact yields_add steps len

section

variable {path : List UInt8} {rest : List (List UInt8)}

theorem nil_notMem_walk (ups : Nat) (h : List.Sublist rest (components path)) :
    [] ∉ List.replicate ups dotdot ++ rest := by
  rw [List.mem_append, not_or]
  constructor
  · intro hup
    exact absurd (List.mem_replicate.1 hup).2 (List.cons_ne_nil _ _).symm
  · intro hdown
    exact absurd (List.mem_filter.1 (h.mem hdown)).2 Bool.false_ne_true

/-- A walk that goes up and down again takes three bytes for each step up, the slash behind it among
them, and for the way down no more than the path has that its components come from. -/
theorem length_walk_le (ups : Nat) (h : List.Sublist rest (components path)) :
    (joinWith slash (List.replicate ups dotdot ++ rest)).length ≤ ups * 3 + path.length := by
  by_cases hnil : List.replicate ups dotdot ++ rest = []
  · rw [hnil]
    exact Nat.zero_le _
  · have hups : weight (List.replicate ups dotdot) = ups * 3 := weight_replicate ups dotdot
    refine Nat.le_of_succ_le_succ ?_
    calc (joinWith slash (List.replicate ups dotdot ++ rest)).length + 1
      _ = weight (List.replicate ups dotdot ++ rest) := length_joinWith hnil
      _ = ups * 3 + weight rest := by rw [weight_append, hups]
      _ ≤ ups * 3 + weight (components path) := Nat.add_le_add_left (weight_le_of_sublist h) _
      _ ≤ ups * 3 + (path.length + 1) := Nat.add_le_add_left (weight_components_le path) _

end

theorem keepsTo_relative (file : List UInt8) (reference : Option (List UInt8))
    (cwd : Except Failure (List UInt8)) :
    KeepsTo (relative file reference cwd) (Checked.relative file reference cwd)
      (relativeRoom file reference cwd) := by
  rw [relative, Checked.relative]
  refine (keepsTo_absolute file none cwd).bind fun f hf _ => ?_
  refine (keepsTo_absolute (reference.getD dot) none cwd).bind fun r hr _ => ?_
  have hpos : 0 < f.units.length := yields_absolute file none cwd f.units hf
  simp only [relativeRoom, hf, hr]
  generalize commonLength (components f.units) (components r.units) = common
  refine .step fun ups hups => ?_
  obtain rfl : ups = _ := (yields_sub _ _).checked ups hups
  generalize (components r.units).length - common = ups
  refine .step fun rest hrest => ?_
  have hdown : List.Sublist rest (components f.units) := (yields_slice _ _ _).checked rest hrest
  refine .step fun size hsize => ?_
  obtain rfl : size = _ := (yields_size ups f.units.length).checked size hsize
  refine .allocate ?_
  have hwalk := @foldlM_extendPart_eq ⟨_, [], Nat.zero_le _⟩ [] (List.replicate ups dotdot ++ rest)
    rfl (nil_notMem_walk ups hdown) (length_walk_le ups hdown)
  rw [hwalk]
  exact keepsTo_orDot (Nat.lt_add_left _ hpos)

end Reserved

end CText
