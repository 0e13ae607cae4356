import CText.Path.Basic
import CText.Proofs.CString.Content
import CText.Proofs.Fields

/-!
# The stack of components

What the walk over a path leaves on its stack has one form: ordinary names, and below them, in a
path that is not rooted, pairs of dots that had nothing to take away. Here stands what each kind of
component does to such a stack. Clean paths are what stacks of this form are written as.
-/

namespace CText.Path

variable {rooted : Bool} {names : List (List UInt8)} {ups : Nat} {part : List UInt8}

/-- A component that names something in the directory it is in. -/
structure Ordinary (part : List UInt8) : Prop where
  ne_nil : part ≠ []
  ne_dot : part ≠ dot
  ne_dotdot : part ≠ dotdot
  no_slash : slash ∉ part

/-- A stack: the nearest name first, and `ups` pairs of dots below the names. -/
def stack (names : List (List UInt8)) (ups : Nat) : List (List UInt8) :=
  names ++ List.replicate ups dotdot

theorem stack_zero (names : List (List UInt8)) : stack names 0 = names :=
  List.append_nil names

theorem reverse_stack (names : List (List UInt8)) (ups : Nat) :
    (stack names ups).reverse = List.replicate ups dotdot ++ names.reverse := by
  rw [stack, List.reverse_append, List.reverse_replicate]

theorem reverse_stack_cons (name : List UInt8) (names : List (List UInt8)) (ups : Nat) :
    (stack (name :: names) ups).reverse = (stack names ups).reverse ++ [name] :=
  List.reverse_cons

theorem reverse_stack_succ (ups : Nat) :
    (stack [] (ups + 1)).reverse = (stack [] ups).reverse ++ [dotdot] := by
  simp only [stack, List.nil_append, List.replicate_succ, List.reverse_cons]

/-- The form of every stack that the walk over a path leaves. -/
structure IsStack (rooted : Bool) (names : List (List UInt8)) (ups : Nat) : Prop where
  ordinary : ∀ part ∈ names, Ordinary part
  rooted_ups : rooted = true → ups = 0

theorem isStack_nil (rooted : Bool) : IsStack rooted [] 0 where
  ordinary _ h := nomatch h
  rooted_ups _ := rfl

/-- A component leaves the stack as it is, or comes on top of it, or is two dots that take away
what is on top. -/
theorem push_cases (rooted : Bool) (above : List (List UInt8)) (part : List UInt8) :
    push rooted above part = above ∨ push rooted above part = part :: above ∨
      part = dotdot ∧ ∃ top, above = top :: push rooted above part := by
  unfold push
  split
  · exact .inl rfl
  split
  · rename_i hup
    cases above with
    | nil =>
      cases rooted with
      | true => exact .inl rfl
      | false => exact .inr (.inl (by rw [hup]; rfl))
    | cons top rest =>
      dsimp only
      split
      · exact .inr (.inl (by rw [hup]))
      · exact .inr (.inr ⟨hup, top, rfl⟩)
  · exact .inr (.inl rfl)

theorem push_skip (above : List (List UInt8)) (h : part = [] ∨ part = dot) :
    push rooted above part = above := by
  unfold push
  rw [if_pos h]

theorem push_name (above : List (List UInt8)) (h : Ordinary part) :
    push rooted above part = part :: above := by
  unfold push
  rw [if_neg (not_or.2 ⟨h.ne_nil, h.ne_dot⟩), if_neg h.ne_dotdot]

/-- Two dots take a name away. -/
theorem push_dotdot_name {name : List UInt8} (h : Ordinary name) (above : List (List UInt8)) :
    push rooted (name :: above) dotdot = above := by
  have hne : ¬ (dotdot = [] ∨ dotdot = dot) := by decide
  rw [push, if_neg hne, if_pos rfl, if_neg h.ne_dotdot]

theorem push_dotdot_root : push true [] dotdot = [] := by
  decide

/-- Two dots with no name to take away are kept in a path that is not rooted. -/
theorem push_dotdot_ups (ups : Nat) : push false (stack [] ups) dotdot = stack [] (ups + 1) := by
  have hne : ¬ (dotdot = [] ∨ dotdot = dot) := by decide
  unfold push
  rw [if_neg hne, if_pos rfl]
  cases ups with
  | zero => rfl
  | succ n =>
    simp only [stack, List.nil_append, List.replicate_succ, if_true]

theorem IsStack.push_dotdot (h : IsStack rooted [] ups) :
    push rooted (stack [] ups) dotdot = if rooted then stack [] ups else stack [] (ups + 1) := by
  cases rooted with
  | true =>
    rw [h.rooted_ups rfl]
    exact push_dotdot_root
  | false => exact push_dotdot_ups ups

theorem IsStack.tail {name : List UInt8} (h : IsStack rooted (name :: names) ups) :
    IsStack rooted names ups where
  ordinary part hpart := h.ordinary part (List.mem_cons_of_mem _ hpart)
  rooted_ups := h.rooted_ups

theorem IsStack.cons (h : IsStack rooted names ups) (hpart : Ordinary part) :
    IsStack rooted (part :: names) ups where
  ordinary other hother := by
    rcases List.mem_cons.1 hother with rfl | hother
    · exact hpart
    · exact h.ordinary other hother
  rooted_ups := h.rooted_ups

theorem isStack_ups (ups : Nat) : IsStack false [] ups where
  ordinary _ h := nomatch h
  rooted_ups h := nomatch h

/-- One component leads from a stack of the form to a stack of the form. -/
theorem IsStack.step (h : IsStack rooted names ups) (hpart : slash ∉ part) :
    ∃ names' ups', IsStack rooted names' ups' ∧
      push rooted (stack names ups) part = stack names' ups' := by
  by_cases hskip : part = [] ∨ part = dot
  · exact ⟨names, ups, h, push_skip _ hskip⟩
  by_cases hup : part = dotdot
  · subst hup
    cases names with
    | cons name names =>
      exact ⟨names, ups, h.tail, push_dotdot_name (h.ordinary name List.mem_cons_self) _⟩
    | nil =>
      cases rooted with
      | true => exact ⟨[], ups, h, h.push_dotdot⟩
      | false => exact ⟨[], ups + 1, isStack_ups _, h.push_dotdot⟩
  · rw [not_or] at hskip
    have hname : Ordinary part := ⟨hskip.1, hskip.2, hup, hpart⟩
    exact ⟨part :: names, ups, h.cons hname, push_name _ hname⟩

/-- The walk over any components keeps the stack in form. -/
theorem IsStack.run (h : IsStack rooted names ups) {parts : List (List UInt8)}
    (hparts : ∀ part ∈ parts, slash ∉ part) :
    ∃ names' ups', IsStack rooted names' ups' ∧
      parts.foldl (push rooted) (stack names ups) = stack names' ups' := by
  induction parts generalizing names ups with
  | nil => exact ⟨names, ups, h, rfl⟩
  | cons part parts ih =>
    obtain ⟨names', ups', hstack, hpush⟩ := h.step (hparts part List.mem_cons_self)
    rw [List.foldl_cons, hpush]
    exact ih hstack fun other hother => hparts other (List.mem_cons_of_mem _ hother)

/-- Names pile up on the stack one by one. -/
theorem foldl_push_names {parts : List (List UInt8)} (h : ∀ part ∈ parts, Ordinary part)
    (above : List (List UInt8)) :
    parts.foldl (push rooted) above = parts.reverse ++ above := by
  induction parts generalizing above with
  | nil => rfl
  | cons part parts ih =>
    have hrest := ih fun other hother => h other (List.mem_cons_of_mem _ hother)
    rw [List.foldl_cons, push_name _ (h part List.mem_cons_self), hrest, List.reverse_cons,
      List.append_assoc]
    rfl

/-- As many pairs of dots as there are names take all of these away. -/
theorem foldl_push_dotdots (h : ∀ part ∈ names, Ordinary part) (above : List (List UInt8)) :
    (List.replicate names.length dotdot).foldl (push rooted) (names ++ above) = above := by
  induction names with
  | nil => rfl
  | cons name names ih =>
    rw [List.length_cons, List.replicate_succ, List.foldl_cons, List.cons_append,
      push_dotdot_name (h name List.mem_cons_self)]
    exact ih fun part hpart => h part (List.mem_cons_of_mem _ hpart)

/-- The walk over the components of a stack, from the lowest up, builds that stack. -/
theorem foldl_push_reverse_stack (h : IsStack rooted names ups) :
    (stack names ups).reverse.foldl (push rooted) [] = stack names ups := by
  induction names with
  | nil =>
    cases rooted with
    | true =>
      rw [h.rooted_ups rfl]
      rfl
    | false =>
      induction ups with
      | zero => rfl
      | succ ups ih =>
        rw [reverse_stack_succ, List.foldl_append, ih (isStack_ups ups)]
        exact push_dotdot_ups ups
  | cons name names ih =>
    rw [reverse_stack_cons, List.foldl_append, ih h.tail]
    exact push_name _ (h.ordinary name List.mem_cons_self)

theorem ne_slash_of_notMem (h : slash ∉ part) : ∀ c ∈ part, (c == slash) = false := by
  intro c hc
  rw [beq_eq_false_iff_ne]
  rintro rfl
  exact h hc

theorem slash_notMem_of_mem_split {path : List UInt8} (h : part ∈ split path) :
    slash ∉ part := by
  intro hslash
  have hfree := free_of_mem_fields h slash hslash
  simp at hfree

/-- Components that are empty or the dot may as well be left out. -/
theorem foldl_push_filter (above parts : List (List UInt8)) :
    (parts.filter fun part => part ≠ [] ∧ part ≠ dot).foldl (push rooted) above =
      parts.foldl (push rooted) above := by
  induction parts generalizing above with
  | nil => rfl
  | cons part parts ih =>
    rw [List.filter_cons, List.foldl_cons]
    split
    · exact ih _
    · rename_i h
      rw [decide_eq_true_iff, not_and_or, not_not, not_not] at h
      rw [push_skip _ h]
      exact ih _

/-- A component makes the stack heavier by no more than it takes in the path. -/
theorem weight_push_le (rooted : Bool) (part : List UInt8) (above : List (List UInt8)) :
    weight (push rooted above part) ≤ weight above + (part.length + 1) := by
  rcases push_cases rooted above part with h | h | ⟨_, top, h⟩
  · rw [h]
    exact Nat.le_add_right _ _
  · rw [h, weight_cons]
    exact Nat.le_of_eq (Nat.add_comm _ _)
  · have hweight := congrArg weight h
    rw [weight_cons] at hweight
    omega

theorem weight_foldl_push_le (above parts : List (List UInt8)) :
    weight (parts.foldl (push rooted) above) ≤ weight above + weight parts := by
  induction parts generalizing above with
  | nil => simp
  | cons part parts ih =>
    have hstep := weight_push_le rooted part above
    have hrest := ih (push rooted above part)
    rw [List.foldl_cons, weight_cons]
    omega

end CText.Path
