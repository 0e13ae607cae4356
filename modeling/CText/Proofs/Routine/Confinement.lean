import CText.Routine.Codecs
import CText.Routine.Memory
import CText.Routine.Paths
import CText.Routine.Strings
import CText.Routine.WideStrings

/-!
# What routines see of their inputs

A computation over inputs is confined to some fields if it comes to the same whenever those fields
are the same, and finds fault with none but those. The judgment is put together along the steps of a
computation. Every routine is confined to the fields that it takes. It can also find fault with each
of them, so it takes no field for nothing.
-/

namespace CText.Routine

variable {α β : Type}

/-- Inputs that are the same under some keys. -/
def AgreeOn (fields : List String) (i j : Json) : Prop := ∀ field ∈ fields, i.get? field = j.get? field

theorem AgreeOn.symm {fields : List String} {i j : Json} (h : AgreeOn fields i j) :
    AgreeOn fields j i :=
  fun field hfield => (h field hfield).symm

/-- A computation that sees no other fields of its inputs than those given. -/
structure Confined (fields : List String) (f : Json → Except Trouble α) : Prop where
  agrees : ∀ {i j}, AgreeOn fields i j → f i = f j
  blames : ∀ {i field reason}, f i = .error (.input field reason) → field ∈ fields

section

variable {fields : List String} {f : Json → Except Trouble α}

theorem Confined.bind {g : α → Json → Except Trouble β} (hf : Confined fields f)
    (hg : ∀ a, Confined fields (g a)) : Confined fields fun i => f i >>= fun a => g a i where
  agrees {i j} h := by
    rw [hf.agrees h]
    exact congrArg (f j >>= ·) (funext fun a => (hg a).agrees h)
  blames {i field reason} h := by
    cases hi : f i with
    | ok a =>
      rw [hi] at h
      exact (hg a).blames h
    | error trouble =>
      rw [hi] at h
      cases h
      exact hf.blames hi

theorem Confined.map (hf : Confined fields f) (g : α → β) :
    Confined fields fun i => (f i).map g where
  agrees h := congrArg (Except.map g) (hf.agrees h)
  blames h := hf.blames (eq_error_of_map h)

/-! ## Steps that look at no input -/

/-- What does not look at the inputs is confined to the fields that it finds fault with. -/
theorem confined_const {x : Except Trouble α}
    (h : ∀ field reason, x = .error (.input field reason) → field ∈ fields) :
    Confined fields fun _ => x where
  agrees _ := rfl
  blames := h _ _

theorem confined_ok (a : α) : Confined fields fun _ => .ok a :=
  confined_const fun _ _ h => nomatch h

theorem confined_blame {field : String} {reason : Reason} (h : field ∈ fields) :
    Confined fields fun _ => (.error (.input field reason) : Except Trouble α) := by
  refine confined_const ?_
  rintro _ _ ⟨⟩
  exact h

theorem confined_kept (x : Except Violation α) : Confined fields fun _ => kept x := by
  refine confined_const fun field reason h => ?_
  cases x <;> cases h

theorem confined_settled (answer : Except Escape.Failure String) :
    Confined fields fun _ => settled answer := by
  refine confined_const fun field reason h => ?_
  rcases answer with (e | v) | shown <;> cases h

theorem confined_blank (width : Nat) (a : α) (n : Nat) :
    Confined fields fun _ => blank width a n := by
  refine confined_const fun field reason h => ?_
  unfold blank at h
  split at h <;> cases h

theorem confined_requireRoom (needed capacity : Nat) (h : "dst_len" ∈ fields) :
    Confined fields fun _ => requireRoom needed capacity := by
  unfold requireRoom
  split
  · exact confined_ok ()
  · exact confined_blame h

end

/-! ## Inputs -/

namespace Inputs

variable {fields : List String} {field : String}

theorem confined_get (h : field ∈ fields) : Confined fields fun i => get i field where
  agrees {i j} hagree := by
    unfold get
    rw [hagree field h]
  blames {i at' reason} hi := by
    unfold get at hi
    split at hi <;> cases hi
    exact h

theorem present?_eq {i j : Json} (hagree : AgreeOn fields i j) (h : field ∈ fields) :
    present? i field = present? j field := by
  unfold present?
  rw [hagree field h]

theorem confined_units (reason : Reason) (limit : Nat) (unit : Nat → α) (items : List Json)
    (h : field ∈ fields) : Confined fields fun _ => units field reason limit unit items := by
  induction items with
  | nil => exact confined_ok []
  | cons item items ih =>
    simp only [units, List.mapM_cons] at ih ⊢
    cases below? limit item with
    | some n => exact (confined_ok (unit n)).bind fun a => ih.bind fun rest => confined_ok _
    | none => exact (confined_blame h).bind fun a => ih.bind fun rest => confined_ok _

theorem confined_bytes (h : field ∈ fields) : Confined fields fun i => bytes i field := by
  refine (confined_get h).bind fun j => ?_
  split
  · exact confined_ok _
  · exact confined_units _ _ _ _ h
  · exact confined_blame h

theorem confined_cstring (h : field ∈ fields) : Confined fields fun i => cstring i field := by
  refine (confined_get h).bind fun j => ?_
  split
  · exact confined_ok _
  · exact confined_units _ _ _ _ h
  · exact confined_blame h

theorem confined_wide (h : field ∈ fields) : Confined fields fun i => wide i field := by
  refine (confined_get h).bind fun j => ?_
  split
  · exact confined_ok _
  · exact confined_units _ _ _ _ h
  · exact confined_blame h

theorem confined_text (h : field ∈ fields) : Confined fields fun i => text i field := by
  refine (confined_get h).bind fun j => ?_
  split
  · exact confined_ok _
  · exact confined_blame h

theorem confined_count (h : field ∈ fields) : Confined fields fun i => count i field := by
  refine (confined_get h).bind fun j => ?_
  split
  · exact confined_ok _
  · exact confined_blame h

theorem confined_byte (h : field ∈ fields) : Confined fields fun i => byte i field := by
  refine (confined_get h).bind fun j => ?_
  split
  · split
    · exact confined_ok _
    · exact confined_blame h
  · split
    · exact confined_ok _
    · exact confined_blame h
  · exact confined_blame h

theorem confined_unit (h : field ∈ fields) : Confined fields fun i => unit i field := by
  refine (confined_get h).bind fun j => ?_
  split
  · split
    · exact confined_ok _
    · exact confined_blame h
  · split
    · exact confined_ok _
    · exact confined_blame h
  · exact confined_blame h

theorem confined_octal (h : field ∈ fields) : Confined fields fun i => octal i field := by
  refine (confined_get h).bind fun j => ?_
  split
  · split
    · exact confined_ok _
    · exact confined_blame h
  · split
    · exact confined_ok _
    · exact confined_blame h
  · exact confined_blame h

/-- An input that is only looked at if it is present, with a default for one that is not. -/
theorem confined_present {f : Json → Except Trouble α} (hf : Confined fields f) (default : α)
    (h : field ∈ fields) :
    Confined fields fun i => match present? i field with
      | some _ => f i
      | none => .ok default where
  agrees hagree := by
    rw [present?_eq hagree h, hf.agrees hagree]
  blames hi := by
    split at hi
    · exact hf.blames hi
    · cases hi

theorem confined_cstring? (h : field ∈ fields) : Confined fields fun i => cstring? i field :=
  confined_present ((confined_cstring h).map some) none h

theorem confined_text? (h : field ∈ fields) : Confined fields fun i => text? i field :=
  confined_present ((confined_text h).map some) none h

theorem confined_countOr (default : Nat) (h : field ∈ fields) :
    Confined fields fun i => countOr i field default :=
  confined_present (confined_count h) default h

theorem confined_sizeBase (h : "units" ∈ fields) : Confined fields sizeBase := by
  refine (confined_text? h).bind fun s => ?_
  split <;> exact confined_ok _

theorem confined_addFlags (flags : Escape.Flags) (items : List Json) (h : "flags" ∈ fields) :
    Confined fields fun _ => items.foldlM addFlag flags := by
  induction items generalizing flags with
  | nil => exact confined_ok flags
  | cons item items ih =>
    have hflag : Confined fields fun _ => addFlag flags item := by
      unfold addFlag
      split
      · exact confined_ok _
      · exact confined_ok _
      · exact confined_ok _
      · exact confined_blame h
    simp only [List.foldlM_cons]
    exact hflag.bind fun flags => ih flags

theorem confined_escapeFlags (h : "flags" ∈ fields) : Confined fields escapeFlags where
  agrees hagree := by
    unfold escapeFlags
    rw [present?_eq hagree h]
  blames {i field reason} hi := by
    unfold escapeFlags at hi
    split at hi
    next => cases hi
    next items _ => exact (confined_addFlags .plain items h).blames (i := i) hi
    next =>
      cases hi
      exact h

end Inputs

/-! ## Families -/

open Inputs

variable {fields : List String} {name first second : String}

theorem confined_ofString (f : List UInt8 → Except Violation String) :
    Confined ["s"] (ofString name f).run :=
  (confined_cstring (by decide)).bind fun _ => (confined_kept _).bind fun _ => confined_ok _

theorem confined_ofStrings (f : List UInt8 → List UInt8 → Except Violation String) :
    Confined [first, second] (ofStrings name first second f).run := by
  refine (confined_cstring List.mem_cons_self).bind fun s => ?_
  refine (confined_cstring (List.mem_cons_of_mem _ List.mem_cons_self)).bind fun t => ?_
  exact (confined_kept _).bind fun _ => confined_ok _

theorem confined_ofBounded (f : List UInt8 → List UInt8 → Nat → Except Violation String) :
    Confined ["s1", "s2", "n"] (ofBounded name f).run := by
  refine (confined_cstring (by decide)).bind fun s => ?_
  refine (confined_cstring (by decide)).bind fun t => ?_
  refine (confined_count (by decide)).bind fun n => ?_
  exact (confined_kept _).bind fun _ => confined_ok _

theorem confined_ofStringByte (f : List UInt8 → UInt8 → Except Violation String) :
    Confined ["s", "c"] (ofStringByte name f).run := by
  refine (confined_cstring (by decide)).bind fun s => ?_
  refine (confined_byte (by decide)).bind fun c => ?_
  exact (confined_kept _).bind fun _ => confined_ok _

theorem confined_ofCopy (copy : List UInt8 → List UInt8 → Except Violation (List UInt8 × Nat))
    (shown : List UInt8 × Nat → Except Violation String) :
    Confined ["src", "dst_len"] (ofCopy name copy shown).run := by
  refine (confined_cstring (by decide)).bind fun src => ?_
  refine (confined_kept _).bind fun needed => ?_
  refine (confined_countOr _ (by decide)).bind fun capacity => ?_
  refine (confined_requireRoom _ _ (by decide)).bind fun _ => ?_
  refine (confined_blank _ _ _).bind fun dest => ?_
  exact (confined_kept _).bind fun _ => confined_ok _

theorem confined_ofWindow (shown : List UInt8 × CString.Window → String) :
    Confined ["src", "n", "dst_len"] (ofWindow name shown).run := by
  refine (confined_cstring (by decide)).bind fun src => ?_
  refine (confined_count (by decide)).bind fun n => ?_
  refine (confined_countOr _ (by decide)).bind fun capacity => ?_
  refine (confined_blank _ _ _).bind fun dest => ?_
  exact (confined_kept _).bind fun _ => confined_ok _

theorem confined_destination {field : String} (capacity : Nat) (h : field ∈ fields)
    (hsize : "dst_len" ∈ fields) : Confined fields fun i => destination i field capacity := by
  refine (confined_cstring h).bind fun start => (confined_kept _).bind fun len => ?_
  split
  · exact confined_blame hsize
  · exact (confined_blank _ _ _).bind fun dest => confined_kept _

theorem confined_runAppend (bound : Option Nat) (src : List UInt8) (h : "dest" ∈ fields)
    (hsize : "dst_len" ∈ fields) : Confined fields (runAppend name bound src) := by
  refine (confined_cstring h).bind fun dest => (confined_kept _).bind fun start => ?_
  refine (confined_kept _).bind fun added => (confined_kept _).bind fun needed => ?_
  refine (confined_countOr _ hsize).bind fun capacity => ?_
  refine (confined_requireRoom _ _ hsize).bind fun _ => ?_
  refine (confined_destination _ h hsize).bind fun dest => ?_
  exact (confined_kept _).bind fun _ => (confined_kept _).bind fun _ => confined_ok _

theorem confined_runCutCopy : Confined ["src", "dst_len"] runCutCopy := by
  refine (confined_cstring (by decide)).bind fun src => ?_
  refine (confined_count (by decide)).bind fun capacity => (confined_blank _ _ _).bind fun dest => ?_
  exact (confined_kept _).bind fun _ => (confined_kept _).bind fun _ => confined_ok _

theorem confined_runCutAppend : Confined ["src", "dst_len", "dest"] runCutAppend := by
  refine (confined_cstring (by decide)).bind fun src => ?_
  refine (confined_count (by decide)).bind fun capacity => ?_
  refine (confined_destination _ (by decide) (by decide)).bind fun dest => ?_
  exact (confined_kept _).bind fun _ => (confined_kept _).bind fun _ => confined_ok _

theorem confined_runTokens (style : CString.TokenStyle) :
    Confined ["s", "delims"] (runTokens style) := by
  refine (confined_cstring (by decide)).bind fun s => ?_
  refine (confined_cstring (by decide)).bind fun delims => ?_
  exact (confined_kept _).bind fun _ => confined_ok _

theorem confined_ofByteSearch
    (search : List UInt8 → UInt8 → Nat → Except Violation (Option Nat)) :
    Confined ["s", "c", "n"] (ofByteSearch name search).run := by
  refine (confined_bytes (by decide)).bind fun s => ?_
  refine (confined_byte (by decide)).bind fun c => ?_
  refine (confined_countOr _ (by decide)).bind fun n => ?_
  exact (confined_kept _).bind fun _ => confined_ok _

theorem confined_ofWides (f : List UInt32 → List UInt32 → Except Violation String) :
    Confined [first, second] (ofWides name first second f).run := by
  refine (confined_wide List.mem_cons_self).bind fun s => ?_
  refine (confined_wide (List.mem_cons_of_mem _ List.mem_cons_self)).bind fun t => ?_
  exact (confined_kept _).bind fun _ => confined_ok _

theorem confined_ofWideUnit (f : List UInt32 → UInt32 → Except Violation String) :
    Confined ["s", "c"] (ofWideUnit name f).run := by
  refine (confined_wide (by decide)).bind fun s => ?_
  refine (confined_unit (by decide)).bind fun c => ?_
  exact (confined_kept _).bind fun _ => confined_ok _

theorem confined_runWideCopy : Confined ["src"] runWideCopy := by
  refine (confined_wide (by decide)).bind fun src => (confined_kept _).bind fun needed => ?_
  refine (confined_blank _ _ _).bind fun dest => ?_
  exact (confined_kept _).bind fun _ => (confined_kept _).bind fun _ => confined_ok _

theorem confined_runWideAppend : Confined ["dest", "src"] runWideAppend := by
  refine (confined_wide (by decide)).bind fun start => ?_
  refine (confined_wide (by decide)).bind fun src => (confined_kept _).bind fun size => ?_
  refine (confined_blank _ _ _).bind fun dest => ?_
  exact (confined_kept _).bind fun _ => (confined_kept _).bind fun _ => confined_ok _

theorem confined_runWideTokens : Confined ["s", "delims"] runWideTokens := by
  refine (confined_wide (by decide)).bind fun s => ?_
  refine (confined_wide (by decide)).bind fun delims => ?_
  exact (confined_kept _).bind fun _ => (confined_kept _).bind fun _ => confined_ok _

theorem confined_ofPath (f : List UInt8 → Except Violation (List UInt8)) :
    Confined ["path"] (ofPath name f).run :=
  (confined_bytes (by decide)).bind fun _ => (confined_kept _).bind fun _ => confined_ok _

theorem confined_ofResolving
    (f : List UInt8 → Option (List UInt8) → Except Escape.Failure (List UInt8) →
      Except Escape.Failure (List UInt8)) :
    Confined ["reference", "file", "cwd"] (ofResolving name f).run := by
  refine (confined_text? (by decide)).bind fun reference => ?_
  refine (confined_bytes (by decide)).bind fun file => ?_
  exact (confined_text (by decide)).bind fun cwd => confined_settled _

theorem confined_styleOf (h : "style" ∈ fields) : Confined fields styleOf := by
  refine (confined_text? h).bind fun style => ?_
  split
  · exact confined_ok _
  · exact confined_ok _
  · exact confined_ok _
  · exact confined_ok _
  · exact confined_blame h

theorem confined_marksOr {field : String} (default : List UInt8) (h : field ∈ fields) :
    Confined fields fun i => marksOr i field default := by
  refine (confined_text? h).bind fun s => ?_
  split <;> exact confined_ok _

theorem confined_baseOf (h : "base" ∈ fields) : Confined fields baseOf :=
  confined_present ((confined_octal h).map some) none h

theorem confined_quoteOf (h : "quote" ∈ fields) : Confined fields quoteOf :=
  confined_present (confined_byte h) 0 h

/-! ## Tables -/

theorem confined_strings : ∀ r ∈ strings, Confined r.fields r.run := by
  simp only [strings, List.forall_mem_cons]
  refine ⟨?strlen, ?strnlen, ?strcpy, ?stpcpy, ?strncpy, ?stpncpy, ?strcat, ?strncat, ?strlcpy,
    ?strlcat, ?strcmp, ?strncmp, ?strcasecmp, ?strncasecmp, ?strchr, ?strrchr, ?strchrnul, ?strstr,
    ?strcasestr, ?strspn, ?strcspn, ?strpbrk, ?strdup, ?strndup, ?strsep, ?strtok_r, ?strtok,
    List.forall_mem_nil _⟩
  case strnlen =>
    refine (confined_cstring (by decide)).bind fun s => ?_
    refine (confined_count (by decide)).bind fun n => ?_
    exact (confined_kept _).bind fun _ => confined_ok _
  case strcpy | stpcpy => exact confined_ofCopy _ _
  case strncpy | stpncpy => exact confined_ofWindow _
  case strcat =>
    refine (confined_cstring (by decide)).bind fun src => ?_
    exact confined_runAppend none src (by decide) (by decide)
  case strncat =>
    refine (confined_cstring (by decide)).bind fun src => ?_
    refine (confined_cstring (by decide)).bind fun _ => ?_
    refine (confined_count (by decide)).bind fun n => ?_
    exact confined_runAppend (some n) src (by decide) (by decide)
  case strlcpy => exact confined_runCutCopy
  case strlcat => exact confined_runCutAppend
  case strncmp | strncasecmp => exact confined_ofBounded _
  case strchr | strrchr | strchrnul => exact confined_ofStringByte _
  case strdup => exact (confined_cstring? (by decide)).bind fun s => confined_settled _
  case strndup =>
    refine (confined_cstring? (by decide)).bind fun s => ?_
    exact (confined_count (by decide)).bind fun n => confined_settled _
  case strsep | strtok_r | strtok => exact confined_runTokens _
  case strlen => exact confined_ofString _
  all_goals exact confined_ofStrings _

theorem confined_memory : ∀ r ∈ memory, Confined r.fields r.run := by
  simp only [memory, List.forall_mem_cons]
  refine ⟨?memchr, ?memrchr, ?memcmp, ?memmem, ?memcpy, ?memmove, ?memccpy, ?memset,
    List.forall_mem_nil _⟩
  case memchr | memrchr => exact confined_ofByteSearch _
  case memcmp =>
    refine (confined_bytes (by decide)).bind fun a => ?_
    refine (confined_bytes (by decide)).bind fun b => ?_
    refine (confined_countOr _ (by decide)).bind fun n => ?_
    exact (confined_kept _).bind fun _ => confined_ok _
  case memmem =>
    refine (confined_bytes (by decide)).bind fun hay => ?_
    refine (confined_bytes (by decide)).bind fun needle => ?_
    exact (confined_kept _).bind fun _ => confined_ok _
  case memcpy =>
    refine (confined_bytes (by decide)).bind fun src => ?_
    refine (confined_count (by decide)).bind fun capacity => ?_
    refine (confined_blank _ _ _).bind fun dest => ?_
    refine (confined_count (by decide)).bind fun n => ?_
    exact (confined_kept _).bind fun _ => confined_ok _
  case memmove =>
    refine (confined_bytes (by decide)).bind fun buf => ?_
    refine (confined_count (by decide)).bind fun dest => ?_
    refine (confined_count (by decide)).bind fun src => ?_
    refine (confined_count (by decide)).bind fun n => ?_
    exact (confined_kept _).bind fun _ => confined_ok _
  case memccpy =>
    refine (confined_bytes (by decide)).bind fun src => ?_
    refine (confined_count (by decide)).bind fun n => ?_
    refine (confined_countOr _ (by decide)).bind fun capacity => ?_
    refine (confined_blank _ _ _).bind fun dest => ?_
    refine (confined_byte (by decide)).bind fun c => ?_
    exact (confined_kept _).bind fun _ => confined_ok _
  case memset =>
    refine (confined_count (by decide)).bind fun capacity => ?_
    refine (confined_blank _ _ _).bind fun dest => ?_
    refine (confined_byte (by decide)).bind fun c => ?_
    refine (confined_count (by decide)).bind fun n => ?_
    exact (confined_kept _).bind fun _ => confined_ok _

theorem confined_wideStrings : ∀ r ∈ wideStrings, Confined r.fields r.run := by
  simp only [wideStrings, List.forall_mem_cons]
  refine ⟨?wcslen, ?wcsnlen, ?wcscpy, ?wcscat, ?wcscmp, ?wcsncmp, ?wcscasecmp, ?wcschr, ?wcsrchr,
    ?wcsstr, ?wcsspn, ?wcscspn, ?wcspbrk, ?wcstok, ?wmemcmp, ?wmemchr, List.forall_mem_nil _⟩
  case wcslen =>
    refine (confined_wide (by decide)).bind fun s => ?_
    exact (confined_kept _).bind fun _ => confined_ok _
  case wcsnlen =>
    refine (confined_wide (by decide)).bind fun s => ?_
    refine (confined_count (by decide)).bind fun n => ?_
    exact (confined_kept _).bind fun _ => confined_ok _
  case wcscpy => exact confined_runWideCopy
  case wcscat => exact confined_runWideAppend
  case wcsncmp =>
    refine (confined_wide (by decide)).bind fun s => ?_
    refine (confined_wide (by decide)).bind fun t => ?_
    refine (confined_count (by decide)).bind fun n => ?_
    exact (confined_kept _).bind fun _ => confined_ok _
  case wcschr | wcsrchr => exact confined_ofWideUnit _
  case wcstok => exact confined_runWideTokens
  case wmemcmp =>
    refine (confined_wide (by decide)).bind fun a => ?_
    refine (confined_wide (by decide)).bind fun b => ?_
    refine (confined_countOr _ (by decide)).bind fun n => ?_
    exact (confined_kept _).bind fun _ => confined_ok _
  case wmemchr =>
    refine (confined_wide (by decide)).bind fun s => ?_
    refine (confined_unit (by decide)).bind fun c => ?_
    refine (confined_countOr _ (by decide)).bind fun n => ?_
    exact (confined_kept _).bind fun _ => confined_ok _
  all_goals exact confined_ofWides _

theorem confined_paths : ∀ r ∈ paths, Confined r.fields r.run := by
  simp only [paths, List.forall_mem_cons]
  refine ⟨?cleanname, ?basename, ?dirname, ?abspath, ?relpath, List.forall_mem_nil _⟩
  case cleanname | basename | dirname => exact confined_ofPath _
  case abspath | relpath => exact confined_ofResolving _

theorem confined_codecs : ∀ r ∈ codecs, Confined r.fields r.run := by
  simp only [codecs, List.forall_mem_cons]
  refine ⟨?classifymode, ?machinemode, ?humanmode, ?machinesize, ?humansize, ?escape, ?unescape,
    List.forall_mem_nil _⟩
  case classifymode => exact (confined_text (by decide)).bind fun s => confined_settled _
  case machinemode =>
    refine (confined_baseOf (by decide)).bind fun base => ?_
    exact (confined_text (by decide)).bind fun s => confined_settled _
  case humanmode =>
    refine (confined_styleOf (by decide)).bind fun style => ?_
    exact (confined_octal (by decide)).bind fun mode => confined_ok _
  case machinesize =>
    refine (confined_marksOr _ (by decide)).bind fun decimalPoints => ?_
    refine (confined_marksOr _ (by decide)).bind fun grouping => ?_
    refine (confined_marksOr _ (by decide)).bind fun separators => ?_
    refine (confined_text (by decide)).bind fun s => ?_
    exact (confined_sizeBase (by decide)).bind fun base => confined_settled _
  case humansize =>
    refine (confined_count (by decide)).bind fun n => ?_
    refine (confined_sizeBase (by decide)).bind fun base => ?_
    exact (confined_kept _).bind fun _ => confined_ok _
  case escape =>
    refine (confined_quoteOf (by decide)).bind fun quote => ?_
    exact (confined_cstring (by decide)).bind fun s => confined_settled _
  case unescape =>
    refine (confined_cstring (by decide)).bind fun s => ?_
    exact (confined_escapeFlags (by decide)).bind fun flags => confined_settled _

end CText.Routine
