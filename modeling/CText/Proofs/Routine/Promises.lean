import CText.Proofs.Buffer.Moving
import CText.Proofs.Checked.Escape
import CText.Proofs.Checked.Mode
import CText.Proofs.Checked.Path
import CText.Proofs.Checked.Size
import CText.Proofs.Checked.Tokens
import CText.Proofs.Routine.Destinations
import CText.Routine.Codecs
import CText.Routine.Memory
import CText.Routine.Paths

/-!
# Routines keep their promises

For each routine of the tables, no call leaves a buffer, is refused for lack of room or counts
beyond the width of a count. The one thing that a case has to see to is that the size it gives for a
buffer is a size that a buffer can have.
-/

namespace CText.Routine

open Checked Inputs

variable {inputs : Json} {name first second : String}

/-! ## Families -/

theorem reads_ofString {f : List UInt8 → Except Violation String} (held : Held inputs)
    (hf : ∀ s, Answers (f s)) : Reads (fun _ => True) ((ofString name f).run inputs) := by
  refine (reads_cstring held "s").bind ?_
  intro s _
  exact (reads_answer (hf s)).bind fun _ _ => trivial

theorem reads_ofStrings {f : List UInt8 → List UInt8 → Except Violation String}
    (held : Held inputs) (hf : ∀ s t, Answers (f s t)) :
    Reads (fun _ => True) ((ofStrings name first second f).run inputs) := by
  refine (reads_cstring held first).bind ?_
  intro s _
  refine (reads_cstring held second).bind ?_
  intro t _
  exact (reads_answer (hf s t)).bind fun _ _ => trivial

theorem reads_ofBounded {f : List UInt8 → List UInt8 → Nat → Except Violation String}
    (held : Held inputs) (hf : ∀ s t n, Answers (f s t n)) :
    Reads (fun _ => True) ((ofBounded name f).run inputs) := by
  refine (reads_cstring held "s1").bind ?_
  intro s _
  refine (reads_cstring held "s2").bind ?_
  intro t _
  refine (reads_count inputs "n").bind ?_
  intro n _
  exact (reads_answer (hf s t n)).bind fun _ _ => trivial

theorem reads_ofStringByte {f : List UInt8 → UInt8 → Except Violation String}
    (held : Held inputs) (hf : ∀ s c, Answers (f s c)) :
    Reads (fun _ => True) ((ofStringByte name f).run inputs) := by
  refine (reads_cstring held "s").bind ?_
  intro s _
  refine (reads_byte inputs "c").bind ?_
  intro c _
  exact (reads_answer (hf s c)).bind fun _ _ => trivial

theorem reads_runTokens (style : CString.TokenStyle) (held : Held inputs) :
    Reads (fun _ => True) (runTokens style inputs) := by
  refine (reads_cstring held "s").bind ?_
  intro s hs
  refine (reads_cstring held "delims").bind ?_
  intro delims _
  obtain ⟨result, -, htokens⟩ := tokens_eq style delims hs.lt_countLimit
  exact (reads_kept htokens).bind fun _ _ => trivial

/-- A copy of a string fails, if it does, for want of memory. -/
theorem settles_showDuplicate {len : List UInt8 → Except Violation Nat} {s : Option (List UInt8)}
    (hs : ∀ t ∈ s, Counted t) (hlen : ∀ t, ∃ n, len t = .ok n ∧ n ≤ t.length) :
    Settles (showDuplicate len s) := by
  cases s with
  | none => exact ⟨.ok "null", rfl⟩
  | some s =>
    obtain ⟨n, hn, hle⟩ := hlen s
    have hbuffer := (hs s rfl).buffer
    obtain ⟨hcount, -, hsome⟩ := limits
    rw [showDuplicate, hn, checked_ok, ok_bind, duplicate_eq 1 hle (by omega)]
    exact (Settles.granted _).bind fun copied => settles_checked (answers_showString copied)

theorem reads_ofByteSearch {search : List UInt8 → UInt8 → Nat → Except Violation (Option Nat)}
    (held : Held inputs) (hsearch : ∀ s c n, Answers (search s c n)) :
    Reads (fun _ => True) ((ofByteSearch name search).run inputs) := by
  refine (reads_bytes held "s").bind ?_
  intro s _
  refine (reads_byte inputs "c").bind ?_
  intro c _
  refine (reads_countOr inputs "n" s.length).bind ?_
  intro n _
  exact (reads_answer (hsearch s c n)).bind fun _ _ => trivial

theorem reads_ofWides {f : List UInt32 → List UInt32 → Except Violation String}
    (held : Held inputs) (hf : ∀ s t, Answers (f s t)) :
    Reads (fun _ => True) ((ofWides name first second f).run inputs) := by
  refine (reads_wide held first).bind ?_
  intro s _
  refine (reads_wide held second).bind ?_
  intro t _
  exact (reads_answer (hf s t)).bind fun _ _ => trivial

theorem reads_ofWideUnit {f : List UInt32 → UInt32 → Except Violation String}
    (held : Held inputs) (hf : ∀ s c, Answers (f s c)) :
    Reads (fun _ => True) ((ofWideUnit name f).run inputs) := by
  refine (reads_wide held "s").bind ?_
  intro s _
  refine (reads_unit inputs "c").bind ?_
  intro c _
  exact (reads_answer (hf s c)).bind fun _ _ => trivial

theorem reads_runWideTokens (held : Held inputs) :
    Reads (fun _ => True) (runWideTokens inputs) := by
  refine (reads_wide held "s").bind ?_
  intro s hs
  refine (reads_wide held "delims").bind ?_
  intro delims _
  obtain ⟨result, -, htokens⟩ := tokens_eq .skipEmpty delims hs.lt_countLimit
  refine (reads_kept htokens).bind ?_
  intro found _
  exact (reads_answer (answers_mapM answers_showWide found.1)).bind fun _ _ => trivial

theorem reads_ofPath {f : List UInt8 → Except Violation (List UInt8)} (held : Held inputs)
    (hf : ∀ path, path.length < inputLimit → Answers (f path)) :
    Reads (fun _ => True) ((ofPath name f).run inputs) := by
  refine (reads_bytes held "path").bind ?_
  intro path hpath
  exact (reads_answer (hf path hpath)).bind fun _ _ => trivial

/-- The working directory of a case is a text of the case. -/
theorem reads_ofResolving
    {f : List UInt8 → Option (List UInt8) → Except Escape.Failure (List UInt8) →
      Except Escape.Failure (List UInt8)} (held : Held inputs)
    (hf : ∀ file reference cwd, file.length ≤ inputLimit →
      (∀ r ∈ reference, r.length ≤ inputLimit) →
      (∀ dir, cwd = .ok dir → dir.length ≤ inputLimit) → Settles (f file reference (granted cwd))) :
    Reads (fun _ => True) ((ofResolving name f).run inputs) := by
  refine (reads_text? inputs "reference").bind ?_
  intro reference hreference
  refine (reads_bytes held "file").bind ?_
  intro file hfile
  refine (reads_text inputs "cwd").bind ?_
  intro cwd hcwd
  refine reads_settled (Settles.map ?_ showBytes)
  rw [fixedDirectory_eq]
  refine hf file _ _ hfile.le ?_ ?_
  · intro r hr
    obtain ⟨text, htext, rfl⟩ := Option.mem_map.1 hr
    exact (held "reference" _ (hreference text htext)).le
  · intro dir hdir
    exact (length_fixedDirectory hdir).trans (held "cwd" _ hcwd).le

/-! ## Tables -/

/-- The routines on byte strings keep their promises. -/
theorem reads_strings (held : Held inputs) : ∀ r ∈ strings, Allocatable inputs r.name →
    Reads (fun _ => True) (r.run inputs) := by
  simp only [strings, List.forall_mem_cons]
  refine ⟨?strlen, ?strnlen, ?strcpy, ?stpcpy, ?strncpy, ?stpncpy, ?strcat, ?strncat, ?strlcpy,
    ?strlcat, ?strcmp, ?strncmp, ?strcasecmp, ?strncasecmp, ?strchr, ?strrchr, ?strchrnul, ?strstr,
    ?strcasestr, ?strspn, ?strcspn, ?strpbrk, ?strdup, ?strndup, ?strsep, ?strtok_r, ?strtok,
    List.forall_mem_nil _⟩
  case strlen => exact fun _ => reads_ofString held fun s => .bind (length_eq s) (.ok _)
  case strnlen =>
    intro _
    refine (reads_cstring held "s").bind ?_
    intro s _
    refine (reads_count inputs "n").bind ?_
    intro n _
    exact (reads_kept (boundedLength_eq s n)).bind fun _ _ => trivial
  case strcpy => exact fun hsize => reads_ofCopy held hsize fun _ _ => answers_strcpy
  case stpcpy =>
    exact fun hsize => reads_ofCopy held hsize fun _ _ hroom _ => answers_stpcpy hroom
  case strncpy => exact fun hsize => reads_ofWindow held hsize
  case stpncpy => exact fun hsize => reads_ofWindow held hsize
  case strcat =>
    intro hsize
    refine (reads_cstring held "src").bind ?_
    intro src hsrc
    exact reads_runAppend held hsrc hsize
  case strncat =>
    intro hsize
    refine (reads_cstring held "src").bind ?_
    intro src hsrc
    refine (reads_cstring held "dest").bind ?_
    intro _ _
    refine (reads_count inputs "n").bind ?_
    intro n _
    exact reads_runAppend held hsrc hsize
  case strlcpy => exact fun hsize => reads_runCutCopy held hsize
  case strlcat => exact fun hsize => reads_runCutAppend held hsize
  case strcmp =>
    exact fun _ => reads_ofStrings held fun s t => .bind (compareAll_eq false s t) (.ok _)
  case strncmp =>
    exact fun _ => reads_ofBounded held fun s t n => .bind (compare_eq false n s t) (.ok _)
  case strcasecmp =>
    exact fun _ => reads_ofStrings held fun s t => .bind (compareAll_eq true s t) (.ok _)
  case strncasecmp =>
    exact fun _ => reads_ofBounded held fun s t n => .bind (compare_eq true n s t) (.ok _)
  case strchr => exact fun _ => reads_ofStringByte held fun s c => .bind (indexOf_eq s c) (.ok _)
  case strrchr =>
    exact fun _ => reads_ofStringByte held fun s c => .bind (lastIndexOf_eq s c) (.ok _)
  case strchrnul =>
    exact fun _ => reads_ofStringByte held fun s c => .bind (indexOrEnd_eq s c) (.ok _)
  case strstr => exact fun _ => reads_ofStrings held fun s t => .bind (find_eq false s t) (.ok _)
  case strcasestr => exact fun _ => reads_ofStrings held fun s t => .bind (find_eq true s t) (.ok _)
  case strspn => exact fun _ => reads_ofStrings held fun s t => .bind (span_eq s t true) (.ok _)
  case strcspn => exact fun _ => reads_ofStrings held fun s t => .bind (span_eq s t false) (.ok _)
  case strpbrk => exact fun _ => reads_ofStrings held fun s t => .bind (indexOfAny_eq s t) (.ok _)
  case strdup =>
    intro _
    refine (reads_cstring? held "s").bind ?_
    intro s hs
    refine reads_settled (settles_showDuplicate hs ?_)
    intro t
    exact ⟨_, length_eq t, CString.length_le t⟩
  case strndup =>
    intro _
    refine (reads_cstring? held "s").bind ?_
    intro s hs
    refine (reads_count inputs "n").bind ?_
    intro n _
    refine reads_settled (settles_showDuplicate hs ?_)
    intro t
    exact ⟨_, boundedLength_eq t n, boundedLength_le t n⟩
  case strsep => exact fun _ => reads_runTokens .separate held
  case strtok_r => exact fun _ => reads_runTokens .skipEmpty held
  case strtok => exact fun _ => reads_runTokens .skipEmpty held

/-- The routines on byte buffers keep their promises. -/
theorem reads_memory (held : Held inputs) : ∀ r ∈ memory, Allocatable inputs r.name →
    Reads (fun _ => True) (r.run inputs) := by
  have hcounted {s : List UInt8} (hs : s.length < inputLimit) : s.length < countLimit :=
    (Counted.of_length_lt hs).lt_countLimit
  simp only [memory, List.forall_mem_cons]
  refine ⟨?memchr, ?memrchr, ?memcmp, ?memmem, ?memcpy, ?memmove, ?memccpy, ?memset,
    List.forall_mem_nil _⟩
  case memchr => exact fun _ => reads_ofByteSearch held fun s c n => ⟨_, scanForward_eq s c n⟩
  case memrchr => exact fun _ => reads_ofByteSearch held fun s c n => ⟨_, scanBackward_eq s c n⟩
  case memcmp =>
    intro _
    refine (reads_bytes held "a").bind ?_
    intro a _
    refine (reads_bytes held "b").bind ?_
    intro b _
    refine (reads_countOr inputs "n" _).bind ?_
    intro n _
    exact (reads_kept (compareUnsigned_eq a b n)).bind fun _ _ => trivial
  case memmem =>
    intro _
    refine (reads_bytes held "haystack").bind ?_
    intro hay hhay
    refine (reads_bytes held "needle").bind ?_
    intro needle _
    exact (reads_kept (findBlock_eq needle (hcounted hhay))).bind fun _ _ => trivial
  case memcpy =>
    intro hsize
    refine (reads_bytes held "src").bind ?_
    intro src _
    refine (reads_count inputs "dst_len").bind ?_
    intro capacity hcapacity
    refine (reads_bytes_blank 0 (hsize capacity hcapacity)).bind ?_
    intro dest _
    refine (reads_count inputs "n").bind ?_
    intro n _
    exact (reads_kept (copyDisjoint_eq dest src n)).bind fun _ _ => trivial
  case memmove =>
    intro _
    refine (reads_bytes held "buf").bind ?_
    intro buf hbuf
    refine (reads_count inputs "dest").bind ?_
    intro dest _
    refine (reads_count inputs "src").bind ?_
    intro src _
    refine (reads_count inputs "n").bind ?_
    intro n _
    obtain ⟨moved, hmove, -⟩ := Buffer.exists_copyOverlapping buf dest src n
    rw [← copyOverlapping_eq (hcounted hbuf)] at hmove
    exact (reads_kept hmove).bind fun _ _ => trivial
  case memccpy =>
    intro hsize
    refine (reads_bytes held "src").bind ?_
    intro src hsrc
    refine (reads_count inputs "n").bind ?_
    intro n hn
    refine (reads_windowSize hn).bind ?_
    intro capacity hcapacity
    refine (reads_bytes_blank 0 (hsize capacity hcapacity)).bind ?_
    intro dest _
    refine (reads_byte inputs "c").bind ?_
    intro c _
    exact (reads_kept (copyThroughStop_eq dest c n (hcounted hsrc))).bind fun _ _ => trivial
  case memset =>
    intro hsize
    refine (reads_count inputs "dst_len").bind ?_
    intro capacity hcapacity
    refine (reads_bytes_blank 0 (hsize capacity hcapacity)).bind ?_
    intro dest _
    refine (reads_byte inputs "c").bind ?_
    intro c _
    refine (reads_count inputs "n").bind ?_
    intro n _
    exact (reads_kept (fill_eq dest c n)).bind fun _ _ => trivial

/-- The routines on wide strings and wide buffers keep their promises. -/
theorem reads_wideStrings (held : Held inputs) :
    ∀ r ∈ wideStrings, Reads (fun _ => True) (r.run inputs) := by
  simp only [wideStrings, List.forall_mem_cons]
  refine ⟨?wcslen, ?wcsnlen, ?wcscpy, ?wcscat, ?wcscmp, ?wcsncmp, ?wcscasecmp, ?wcschr, ?wcsrchr,
    ?wcsstr, ?wcsspn, ?wcscspn, ?wcspbrk, ?wcstok, ?wmemcmp, ?wmemchr, List.forall_mem_nil _⟩
  case wcslen =>
    refine (reads_wide held "s").bind ?_
    intro s _
    exact (reads_kept (length_eq s)).bind fun _ _ => trivial
  case wcsnlen =>
    refine (reads_wide held "s").bind ?_
    intro s _
    refine (reads_count inputs "n").bind ?_
    intro n _
    exact (reads_kept (boundedLength_eq s n)).bind fun _ _ => trivial
  case wcscpy => exact reads_runWideCopy held
  case wcscat => exact reads_runWideAppend held
  case wcscmp => exact reads_ofWides held fun s t => .bind (compareAll_eq false s t) (.ok _)
  case wcsncmp =>
    refine (reads_wide held "s1").bind ?_
    intro s _
    refine (reads_wide held "s2").bind ?_
    intro t _
    refine (reads_count inputs "n").bind ?_
    intro n _
    exact (reads_kept (compare_eq false n s t)).bind fun _ _ => trivial
  case wcscasecmp => exact reads_ofWides held fun s t => .bind (compareAll_eq true s t) (.ok _)
  case wcschr => exact reads_ofWideUnit held fun s c => .bind (indexOf_eq s c) (.ok _)
  case wcsrchr => exact reads_ofWideUnit held fun s c => .bind (lastIndexOf_eq s c) (.ok _)
  case wcsstr => exact reads_ofWides held fun s t => .bind (find_eq false s t) (.ok _)
  case wcsspn => exact reads_ofWides held fun s t => .bind (span_eq s t true) (.ok _)
  case wcscspn => exact reads_ofWides held fun s t => .bind (span_eq s t false) (.ok _)
  case wcspbrk => exact reads_ofWides held fun s t => .bind (indexOfAny_eq s t) (.ok _)
  case wcstok => exact reads_runWideTokens held
  case wmemcmp =>
    refine (reads_wide held "a").bind ?_
    intro a _
    refine (reads_wide held "b").bind ?_
    intro b _
    refine (reads_countOr inputs "n" _).bind ?_
    intro n _
    exact (reads_kept (compareSigned_eq a b n)).bind fun _ _ => trivial
  case wmemchr =>
    refine (reads_wide held "s").bind ?_
    intro s _
    refine (reads_unit inputs "c").bind ?_
    intro c _
    refine (reads_countOr inputs "n" _).bind ?_
    intro n _
    exact (reads_kept (scanForward_eq s c n)).bind fun _ _ => trivial

/-- The routines on paths keep their promises. -/
theorem reads_paths (held : Held inputs) :
    ∀ r ∈ paths, Reads (fun _ => True) (r.run inputs) := by
  obtain ⟨hcount, -, hsome⟩ := limits
  simp only [paths, List.forall_mem_cons]
  refine ⟨?cleanname, ?basename, ?dirname, ?abspath, ?relpath, List.forall_mem_nil _⟩
  case cleanname => exact reads_ofPath held fun path hpath => ⟨_, clean_eq (by omega)⟩
  case basename => exact reads_ofPath held fun path hpath => ⟨_, basename_eq (by omega)⟩
  case dirname => exact reads_ofPath held fun path hpath => ⟨_, dirname_eq (by omega)⟩
  case abspath =>
    refine reads_ofResolving held ?_
    intro file reference cwd hfile hreference hcwd
    exact ⟨_, absolute_eq hfile hreference hcwd (by omega)⟩
  case relpath =>
    refine reads_ofResolving held ?_
    intro file reference cwd hfile hreference hcwd
    exact ⟨_, relative_eq hfile hreference hcwd (by omega) (by omega)⟩

theorem reads_baseOf (inputs : Json) : Reads (fun _ => True) (baseOf inputs) := by
  unfold baseOf
  split
  next => exact (reads_octal inputs "base").map fun _ _ => trivial
  next => trivial

theorem reads_quoteOf (inputs : Json) : Reads (fun _ => True) (quoteOf inputs) := by
  unfold quoteOf
  split
  next => exact reads_byte inputs "quote"
  next => trivial

theorem reads_styleOf (inputs : Json) : Reads (fun _ => True) (styleOf inputs) := by
  refine (reads_text? inputs "style").bind ?_
  intro style _
  split <;> trivial

theorem reads_marksOr (inputs : Json) (field : String) (marks : List UInt8) :
    Reads (fun _ => True) (marksOr inputs field marks) := by
  refine (reads_text? inputs field).bind ?_
  intro s _
  split <;> trivial

/-- The routines on modes, sizes and escapes keep their promises. -/
theorem reads_codecs (held : Held inputs) :
    ∀ r ∈ codecs, Reads (fun _ => True) (r.run inputs) := by
  obtain ⟨hcount, -, hsome⟩ := limits
  have hcounted {s : String} (h : inputs.get? "s" = some (.text s)) :
      (Utf8.bytes s).length < countLimit := by
    have hs : (Utf8.bytes s).length < inputLimit := held "s" _ h
    omega
  simp only [codecs, List.forall_mem_cons]
  refine ⟨?classifymode, ?machinemode, ?humanmode, ?machinesize, ?humansize, ?escape, ?unescape,
    List.forall_mem_nil _⟩
  case classifymode =>
    refine (reads_text inputs "s").bind ?_
    intro s hs
    rw [classify_eq (hcounted hs)]
    exact reads_settled ((Settles.granted _).map formName)
  case machinemode =>
    refine (reads_baseOf inputs).bind ?_
    intro base _
    refine (reads_text inputs "s").bind ?_
    intro s hs
    rw [parseMode_eq (hcounted hs)]
    exact reads_settled ((Settles.granted _).map (showUpdate base))
  case humanmode =>
    refine (reads_styleOf inputs).bind ?_
    intro style _
    exact (reads_octal inputs "mode").bind fun _ _ => trivial
  case machinesize =>
    refine (reads_marksOr inputs "decimal_points" _).bind ?_
    intro decimalPoints _
    refine (reads_marksOr inputs "grouping" _).bind ?_
    intro grouping _
    refine (reads_marksOr inputs "separators" _).bind ?_
    intro separators _
    refine (reads_text inputs "s").bind ?_
    intro s hs
    refine (reads_sizeBase inputs).bind ?_
    intro base _
    rw [parseWith_eq _ base (hcounted hs)]
    exact reads_settled ((Settles.granted _).map _)
  case humansize =>
    refine (reads_count inputs "bytes").bind ?_
    intro n hn
    refine (reads_sizeBase inputs).bind ?_
    intro base _
    have hlimit : Size.sizeLimit = Json.natLimit := by
      unfold Size.sizeLimit
      decide
    exact (reads_kept (renderSize_eq base (hlimit ▸ number?_lt hn))).bind fun _ _ => trivial
  case escape =>
    refine (reads_quoteOf inputs).bind ?_
    intro quote _
    refine (reads_cstring held "s").bind ?_
    intro s hs
    have hbuffer := hs.buffer
    rw [escape_eq quote (by omega)]
    exact reads_settled ((Settles.granted _).map showBytes)
  case unescape =>
    refine (reads_cstring held "s").bind ?_
    intro s hs
    refine (reads_escapeFlags inputs).bind ?_
    intro flags _
    have hbuffer := hs.buffer
    rw [unescape_eq flags (by omega)]
    exact reads_settled ((Settles.granted _).map showBytes)

end CText.Routine
