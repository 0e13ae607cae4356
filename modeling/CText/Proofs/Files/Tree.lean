import CText.Files.Tree

/-!
# Trees keep what is written

Bytes put into a file are what is read from it, and all other files hold what they held. A path that
leads somewhere still leads there.
-/

namespace CText.FileTree

variable {t : FileTree} {l : Location} {content : List UInt8}

/-! ## Places -/

/-- A place where a file is or can be made, and which keeps what is put there. -/
structure Free (t : FileTree) (l : Location) : Prop where
  kept : t.sinks.contains l = false
  noDirectory : t.node l ≠ .directory
  reachable : t.node l = .absent → t.node l.dropLast = .directory

theorem lookup_filter_ne {files : List (Location × List UInt8)} {k : Location} (h : k ≠ l) :
    (files.filter fun (k, _) => k ≠ l).lookup k = files.lookup k := by
  induction files with
  | nil => rfl
  | cons file files ih =>
    obtain ⟨at', bytes⟩ := file
    by_cases hl : at' = l
    · have hk : (k == at') = false := by
        rw [hl, beq_eq_false_iff_ne]
        exact h
      rw [List.filter_cons_of_neg (by simp [hl]), ih, List.lookup_cons, hk]
    · rw [List.filter_cons_of_pos (by simp [hl]), List.lookup_cons, List.lookup_cons, ih]

theorem Free.insert_eq (free : t.Free l) :
    t.insert l content =
      { t with files := (l, content) :: t.files.filter fun (k, _) => k ≠ l } := by
  rw [insert, free.kept, if_neg (by decide)]

/-- A file put at a free place stands there, and nothing else has changed. -/
theorem Free.node_insert (free : t.Free l) (k : Location) :
    (t.insert l content).node k = if k = l then .file content else t.node k := by
  have hdirectory : ¬(l = [] ∨ t.directories.contains l) := by
    intro h
    exact free.noDirectory (if_pos h)
  rw [free.insert_eq, node]
  by_cases hk : k = l
  · subst hk
    rw [if_neg hdirectory, free.kept, if_neg (by decide), List.lookup_cons, beq_self_eq_true,
      if_pos rfl]
  · rw [if_neg hk, node, List.lookup_cons, beq_eq_false_iff_ne.2 hk]
    dsimp only
    rw [lookup_filter_ne hk]

theorem Free.node_insert_of_directory (free : t.Free l) {k : Location}
    (h : t.node k = .directory) : (t.insert l content).node k = .directory := by
  rw [free.node_insert, if_neg, h]
  rintro rfl
  exact free.noDirectory h

theorem Free.insert (free : t.Free l) {k : Location} (other : t.Free k) :
    (t.insert l content).Free k where
  kept := by
    rw [free.insert_eq]
    exact other.kept
  noDirectory := by
    rw [free.node_insert]
    split
    · exact Node.noConfusion
    · exact other.noDirectory
  reachable := by
    rw [free.node_insert]
    split
    · exact fun h => nomatch h
    · exact fun h => free.node_insert_of_directory (other.reachable h)

/-! ## Paths -/

theorem Free.step_insert (free : t.Free l) {k place : Location} {name : String}
    (h : t.step k name = .ok place) : (t.insert l content).step k name = .ok place := by
  unfold step at h ⊢
  cases hk : t.node k with
  | file bytes => simp [hk] at h
  | absent => simp [hk] at h
  | directory =>
    rw [hk] at h
    rw [free.node_insert_of_directory hk]
    exact h

/-- A path that leads somewhere leads there when a file has been added. -/
theorem Free.locate_insert (free : t.Free l) {path : String} {place : Location}
    (h : t.locate path = .ok place) : (t.insert l content).locate path = .ok place := by
  have follow (names : List String) (start : Location) (h : names.foldlM t.step start = .ok place) :
      names.foldlM (t.insert l content).step start = .ok place := by
    induction names generalizing start with
    | nil => exact h
    | cons name names ih =>
      rw [List.foldlM_cons] at h ⊢
      cases hnext : t.step start name with
      | error fault =>
        rw [hnext] at h
        cases h
      | ok next =>
        rw [hnext] at h
        rw [free.step_insert hnext]
        exact ih next h
  have hworking : (t.insert l content).workingDirectory = t.workingDirectory := by
    rw [free.insert_eq]
  unfold locate at h ⊢
  rw [hworking]
  split at h
  · cases h
  next hne =>
    rw [if_neg hne]
    exact follow _ _ h

/-- A path that leads to a place where a file can be kept. -/
def Writable (t : FileTree) (path : String) : Prop := ∃ l, t.locate path = .ok l ∧ t.Free l

/-- A tree after bytes were put into the file under a path. -/
def store (t : FileTree) (path : String) (content : List UInt8) : FileTree :=
  match t.locate path with
  | .ok l => t.insert l content
  | .error _ => t

variable {path other : String}

theorem store_eq (h : t.locate path = .ok l) : t.store path content = t.insert l content := by
  rw [store, h]

theorem Writable.store (h : t.Writable path) (hother : t.Writable other) :
    (t.store path content).Writable other := by
  obtain ⟨l, hl, free⟩ := h
  obtain ⟨k, hk, hfree⟩ := hother
  rw [store_eq hl]
  exact ⟨k, free.locate_insert hk, free.insert hfree⟩

theorem Writable.locate_store (h : t.Writable path) (hother : t.Writable other) :
    (t.store path content).locate other = t.locate other := by
  obtain ⟨l, hl, free⟩ := h
  obtain ⟨k, hk, -⟩ := hother
  rw [store_eq hl, hk]
  exact free.locate_insert hk

def Node.read : Node → Except FileFault (List UInt8)
  | .file content => .ok content
  | .directory => .error .isADirectory
  | .absent => .error .notFound

theorem read_eq (h : t.locate path = .ok l) : t.read path = (t.node l).read := by
  rw [read, h]
  rfl

theorem Writable.read_store (h : t.Writable path) :
    (t.store path content).read path = .ok content := by
  obtain ⟨l, hl, free⟩ := h
  rw [store_eq hl, read_eq (free.locate_insert hl), free.node_insert, if_pos rfl]
  rfl

/-- Another file holds what it held. -/
theorem Writable.read_store_ne (h : t.Writable path) (hother : t.Writable other)
    (hne : t.locate other ≠ t.locate path) : (t.store path content).read other = t.read other := by
  obtain ⟨l, hl, free⟩ := h
  obtain ⟨k, hk, -⟩ := hother
  have hplaces : k ≠ l := by
    rintro rfl
    exact hne (hk.trans hl.symm)
  rw [store_eq hl, read_eq (free.locate_insert hk), read_eq hk, free.node_insert, if_neg hplaces]

theorem Writable.create_eq (h : t.Writable path) : t.create path = .ok (t.store path []) := by
  obtain ⟨l, hl, free⟩ := h
  rw [store_eq hl, create, hl]
  cases hnode : t.node l with
  | directory => exact absurd hnode free.noDirectory
  | file bytes => simp only [bind, Except.bind, hnode, pure, Except.pure]
  | absent => simp only [bind, Except.bind, hnode, free.reachable hnode, pure, Except.pure]

/-- An empty file holds what is written over it. -/
theorem Writable.overwrite_eq (h : t.Writable path) (hempty : t.read path = .ok []) :
    t.overwrite path content = .ok (t.store path content) := by
  obtain ⟨l, hl, -⟩ := h
  have hrest : content ++ List.drop content.length [] = content := by
    rw [List.drop_nil, List.append_nil]
  rw [store_eq hl, overwrite, hempty, hl]
  exact congrArg (fun bytes => Except.ok (t.insert l bytes)) hrest

theorem Free.insert_insert (free : t.Free l) (first : List UInt8) :
    (t.insert l first).insert l content = t.insert l content := by
  rw [(free.insert free).insert_eq, free.insert_eq, free.insert_eq]
  simp [List.filter_filter]

/-- What was put into a file before is gone. -/
theorem Writable.store_store (h : t.Writable path) (first : List UInt8) :
    (t.store path first).store path content = t.store path content := by
  obtain ⟨l, hl, free⟩ := h
  rw [store_eq hl, store_eq (free.locate_insert hl), store_eq hl, free.insert_insert]

/-! ## Several files -/

/-- Paths that lead to different places where files can be kept. -/
structure Outputs (t : FileTree) (paths : List String) : Prop where
  writable : ∀ path ∈ paths, t.Writable path
  apart : paths.Pairwise fun path other => t.locate path ≠ t.locate other

def storeSome (t : FileTree) (path : Option String) (content : List UInt8) : FileTree :=
  match path with
  | some path => t.store path content
  | none => t

section

variable {paths : List String} {wanted : Option String}

theorem Outputs.nodup (h : t.Outputs paths) : paths.Nodup :=
  h.apart.imp fun hne heq => hne (congrArg t.locate heq)

theorem Outputs.locate_ne (h : t.Outputs paths) (hpath : path ∈ paths) (hother : other ∈ paths)
    (hne : path ≠ other) : t.locate path ≠ t.locate other := by
  obtain ⟨-, apart⟩ := h
  induction apart with
  | nil => cases hpath
  | cons hfirst _ ih =>
    rcases List.mem_cons.1 hpath with rfl | hin
    · rcases List.mem_cons.1 hother with rfl | hin'
      · exact absurd rfl hne
      · exact hfirst other hin'
    · rcases List.mem_cons.1 hother with rfl | hin'
      · exact (hfirst path hin).symm
      · exact ih hin hin'

theorem Outputs.storeSome (h : t.Outputs paths) (hwanted : ∀ path ∈ wanted, path ∈ paths) :
    (t.storeSome wanted content).Outputs paths := by
  cases wanted with
  | none => exact h
  | some path =>
    have hpath := h.writable path (hwanted path rfl)
    refine ⟨fun other hother => hpath.store (h.writable other hother), ?_⟩
    refine h.apart.imp_of_mem fun {first second} hfirst hsecond hne => ?_
    change (t.store path content).locate first ≠ (t.store path content).locate second
    rw [hpath.locate_store (h.writable first hfirst),
      hpath.locate_store (h.writable second hsecond)]
    exact hne

theorem Outputs.storeSome_storeSome (h : t.Outputs paths) (hwanted : ∀ path ∈ wanted, path ∈ paths)
    (first : List UInt8) :
    (t.storeSome wanted first).storeSome wanted content = t.storeSome wanted content := by
  cases wanted with
  | none => rfl
  | some path => exact (h.writable path (hwanted path rfl)).store_store first

/-- The file under another path holds what it held. -/
theorem Outputs.read_storeSome_ne (h : t.Outputs paths) (hwanted : ∀ path ∈ wanted, path ∈ paths)
    (hother : other ∈ paths) (hne : wanted ≠ some other) :
    (t.storeSome wanted content).read other = t.read other := by
  cases wanted with
  | none => rfl
  | some path =>
    have hpath := hwanted path rfl
    have hplaces := h.locate_ne hother hpath fun heq => hne (congrArg some heq.symm)
    exact (h.writable path hpath).read_store_ne (h.writable other hother) hplaces

end

end CText.FileTree
