import CText.Proofs.Path.Clean

/-!
# Where paths lead

A path is an instruction for a walk from some location in a tree of directories. Two paths are the
same instruction if they lead to the same place from every location. Cleaning finds the one
shortest text for each instruction: what leads to the same places has one clean form, and what leads
elsewhere from some location has another. A location with enough names above it tells how far a path
climbs, and the root tells which names it goes down through.
-/

namespace CText.Path

variable {rooted : Bool} {names location parts : List (List UInt8)} {ups : Nat}
  {path p q : List UInt8}

/-- One component of a walk. A place is the names that lead there, the nearest first. An empty
component and the dot stay, two dots go to the directory above, the root being above itself, and
any other component goes down. -/
def goOn (place : List (List UInt8)) (part : List UInt8) : List (List UInt8) :=
  if part = [] ∨ part = dot then place
  else if part = dotdot then place.tail
  else part :: place

/-- The place to which a path leads from a location. -/
def destination (location : List (List UInt8)) (path : List UInt8) : List (List UInt8) :=
  let path := CString.content path
  (split path).foldl goOn (if isAbsolute path then [] else location)

/-- The location from which a path sets out: its own root, or the one given. -/
def setOut (rooted : Bool) (location : List (List UInt8)) : List (List UInt8) :=
  if rooted then [] else location

theorem goOn_skip {place : List (List UInt8)} {part : List UInt8} (h : part = [] ∨ part = dot) :
    goOn place part = place :=
  if_pos h

theorem goOn_dotdot (place : List (List UInt8)) : goOn place dotdot = place.tail := by
  have hne : ¬ (dotdot = [] ∨ dotdot = dot) := by decide
  rw [goOn, if_neg hne, if_pos rfl]

theorem goOn_name (place : List (List UInt8)) {part : List UInt8} (h : Ordinary part) :
    goOn place part = part :: place := by
  rw [goOn, if_neg (not_or.2 ⟨h.ne_nil, h.ne_dot⟩), if_neg h.ne_dotdot]

/-- What a component does to the stack of a walk it does to the place where the stack leads. -/
theorem IsStack.goOn_push (h : IsStack rooted names ups) {part : List UInt8}
    (hpart : slash ∉ part) (location : List (List UInt8)) :
    (push rooted (stack names ups) part).reverse.foldl goOn (setOut rooted location) =
      goOn ((stack names ups).reverse.foldl goOn (setOut rooted location)) part := by
  by_cases hskip : part = [] ∨ part = dot
  · rw [push_skip _ hskip, goOn_skip hskip]
  by_cases hup : part = dotdot
  · subst hup
    cases names with
    | cons name names =>
      have hname := h.ordinary name List.mem_cons_self
      have hpop : push rooted (stack (name :: names) ups) dotdot = stack names ups :=
        push_dotdot_name hname _
      rw [hpop, reverse_stack_cons, List.foldl_append, List.foldl_cons, List.foldl_nil,
        goOn_name _ hname, goOn_dotdot]
      rfl
    | nil =>
      rw [h.push_dotdot]
      cases rooted with
      | true =>
        rw [h.rooted_ups rfl]
        rfl
      | false =>
        rw [if_neg Bool.false_ne_true, reverse_stack_succ, List.foldl_append]
        rfl
  · rw [not_or] at hskip
    have hname : Ordinary part := ⟨hskip.1, hskip.2, hup, hpart⟩
    rw [push_name _ hname, List.reverse_cons, List.foldl_append]
    rfl

/-- To walk over components is to walk over the stack that they leave. -/
theorem IsStack.goOn_run (h : IsStack rooted names ups)
    (hparts : ∀ part ∈ parts, slash ∉ part) (location : List (List UInt8)) :
    (parts.foldl (push rooted) (stack names ups)).reverse.foldl goOn (setOut rooted location) =
      parts.foldl goOn ((stack names ups).reverse.foldl goOn (setOut rooted location)) := by
  induction parts generalizing names ups with
  | nil => rfl
  | cons part parts ih =>
    have hpart := hparts part List.mem_cons_self
    obtain ⟨names', ups', hstack, hpush⟩ := h.step hpart
    have hstep := h.goOn_push hpart location
    rw [hpush] at hstep
    rw [List.foldl_cons, List.foldl_cons, hpush, ← hstep]
    exact ih hstack fun other hother => hparts other (List.mem_cons_of_mem _ hother)

/-- Pairs of dots climb. -/
theorem foldl_goOn_dotdots (ups : Nat) (place : List (List UInt8)) :
    (List.replicate ups dotdot).foldl goOn place = place.drop ups := by
  induction ups generalizing place with
  | zero => rfl
  | succ ups ih =>
    rw [List.replicate_succ, List.foldl_cons, goOn_dotdot, ih, ← List.drop_one, List.drop_drop,
      Nat.add_comm]

/-- Names lead down. -/
theorem foldl_goOn_names (h : ∀ part ∈ parts, Ordinary part) (place : List (List UInt8)) :
    parts.foldl goOn place = parts.reverse ++ place := by
  induction parts generalizing place with
  | nil => rfl
  | cons part parts ih =>
    have hrest := ih fun other hother => h other (List.mem_cons_of_mem _ hother)
    rw [List.foldl_cons, goOn_name _ (h part List.mem_cons_self), hrest, List.reverse_cons,
      List.append_assoc]
    rfl

/-- A stack leads up by its pairs of dots and then down by its names. -/
theorem IsStack.foldl_goOn (h : IsStack rooted names ups) (place : List (List UInt8)) :
    (stack names ups).reverse.foldl goOn place = names ++ place.drop ups := by
  have hnames : ∀ part ∈ names.reverse, Ordinary part :=
    fun part hpart => h.ordinary part (List.mem_reverse.1 hpart)
  rw [reverse_stack, List.foldl_append, foldl_goOn_dotdots, foldl_goOn_names hnames,
    List.reverse_reverse]

/-- A path leads where the stack leads that is left of it. -/
theorem destination_eq_walk (location : List (List UInt8)) (path : List UInt8) :
    destination location path =
      (walk (CString.content path)).reverse.foldl goOn (setOut (isAbsolute path) location) := by
  have hrun := (isStack_nil (isAbsolute path)).goOn_run
    (fun part (hpart : part ∈ split (CString.content path)) => slash_notMem_of_mem_split hpart)
    location
  rw [walk, isAbsolute_content]
  refine Eq.trans ?_ hrun.symm
  rw [destination, isAbsolute_content]
  rfl

theorem destination_eq (hstack : IsStack (isAbsolute path) names ups)
    (hwalk : walk (CString.content path) = stack names ups) (location : List (List UInt8)) :
    destination location path = names ++ (setOut (isAbsolute path) location).drop ups := by
  rw [destination_eq_walk, hwalk, hstack.foldl_goOn]

/-- Cleaning does not change where a path leads. -/
theorem destination_clean (location : List (List UInt8)) (path : List UInt8) :
    destination location (clean path) = destination location path := by
  rw [destination_eq_walk, destination_eq_walk, content_clean, walk_clean, isAbsolute_clean]

def deep (n : Nat) : List (List UInt8) := List.replicate n (Ascii.bytes "a")

theorem ordinary_of_mem_deep {n : Nat} : ∀ name ∈ deep n, Ordinary name := by
  intro name hname
  rw [List.eq_of_mem_replicate hname]
  exact ⟨by decide, by decide, by decide, by decide⟩

/-- A walk with a root of its own ends as deep from everywhere, and another one ends the deeper the
deeper it starts. -/
theorem length_setOut_deep (rooted : Bool) (ups n : Nat) :
    ((setOut rooted (deep n)).drop ups).length = if rooted then 0 else n - ups := by
  rw [List.length_drop]
  cases rooted with
  | true => exact Nat.zero_sub ups
  | false =>
    rw [setOut, if_neg Bool.false_ne_true, deep, List.length_replicate]
    rfl

/-- Stacks that lead to the same place from locations of every depth are equal, and either both
have a root of their own or neither has. -/
theorem IsStack.eq_of_lead {rooted' : Bool} {names' : List (List UInt8)} {ups' : Nat}
    (h : IsStack rooted names ups) (h' : IsStack rooted' names' ups')
    (hlead : ∀ n, names ++ (setOut rooted (deep n)).drop ups =
      names' ++ (setOut rooted' (deep n)).drop ups') :
    rooted = rooted' ∧ names = names' ∧ ups = ups' := by
  have hroot : ∀ (rooted : Bool) ups, (setOut rooted (deep 0)).drop ups = [] := by
    intro rooted ups
    cases rooted <;> exact List.drop_nil
  have hnames : names = names' := by
    have hzero := hlead 0
    rwa [hroot, hroot, List.append_nil, List.append_nil] at hzero
  subst hnames
  have hdepth : (if rooted then 0 else ups + ups' + 1 - ups) =
      if rooted' then 0 else ups + ups' + 1 - ups' := by
    have hlen := congrArg List.length (List.append_cancel_left (hlead (ups + ups' + 1)))
    rwa [length_setOut_deep, length_setOut_deep] at hlen
  have hrooted := h.rooted_ups
  have hrooted' := h'.rooted_ups
  cases rooted <;> cases rooted' <;> simp at hdepth hrooted hrooted' ⊢ <;> omega

/-- Paths that lead to the same place from every location have one clean form. -/
theorem clean_eq_of_lead
    (hlead : ∀ location, (∀ name ∈ location, Ordinary name) →
      destination location p = destination location q) : clean p = clean q := by
  obtain ⟨names, ups, hstack, hwalk⟩ := exists_walk (CString.content p)
  obtain ⟨names', ups', hstack', hwalk'⟩ := exists_walk (CString.content q)
  have hp := clean_eq p
  have hq := clean_eq q
  rw [isAbsolute_content] at hstack hstack' hp hq
  obtain ⟨hrooted, rfl, rfl⟩ := hstack.eq_of_lead hstack' fun n => by
    rw [← destination_eq hstack hwalk, ← destination_eq hstack' hwalk']
    exact hlead (deep n) ordinary_of_mem_deep
  rw [hp, hq, hwalk, hwalk', hrooted]

/-- Cleaning is canonical and shortest: it does not change where a path leads; paths have the same
clean form exactly if they lead to the same place from every location; and no path that leads where
another leads, from every location, is shorter than the clean form of that one. The locations may be
any lists of names for the first statement, and need only be made of ordinary names for the
others. -/
theorem clean_canonical_shortest :
    (∀ location path, destination location (clean path) = destination location path) ∧
    (∀ p q, clean p = clean q ↔ ∀ location, (∀ name ∈ location, Ordinary name) →
      destination location p = destination location q) ∧
    (∀ p q, CString.content q ≠ [] →
      (∀ location, (∀ name ∈ location, Ordinary name) →
        destination location q = destination location p) →
      (clean p).length ≤ (CString.content q).length) := by
  refine ⟨destination_clean, fun p q => ⟨?leads, clean_eq_of_lead⟩, ?shortest⟩
  case leads =>
    intro h location _
    rw [← destination_clean location p, h, destination_clean]
  case shortest =>
    intro p q hq hlead
    have hlen := length_clean_le q
    have hpos := List.length_pos_iff.2 hq
    rw [← clean_eq_of_lead hlead]
    omega

/-- Both later statements apply to a relative path that climbs, and tell it from one that climbs
less. -/
theorem clean_canonical_shortest_sample :
    clean (Ascii.bytes "a//../../b/") = clean (Ascii.bytes "../b") ∧
    clean (Ascii.bytes "../b") ≠ clean (Ascii.bytes "b") ∧
    (clean (Ascii.bytes "a//../../b/")).length ≤ (Ascii.bytes "../b").length := by
  have hsame : clean (Ascii.bytes "a//../../b/") = clean (Ascii.bytes "../b") := by decide
  have hlead := (clean_canonical_shortest.2.1 _ _).1 hsame
  refine ⟨hsame, ?_, ?_⟩
  · intro h
    have hdeep := (clean_canonical_shortest.2.1 _ _).1 h (deep 1) ordinary_of_mem_deep
    exact absurd hdeep (by decide)
  · exact clean_canonical_shortest.2.2 _ (Ascii.bytes "../b") (by decide)
      fun location hlocation => (hlead location hlocation).symm

end CText.Path
