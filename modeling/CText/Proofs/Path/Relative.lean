import CText.Proofs.Path.Absolute

/-!
# Relative paths are the shortest way back

A relative path is a walk from one place to another. The walk that goes up to the last common
directory and down again is a shortest one: no component of a walk brings the two places nearer to
each other than by the bytes it takes itself.
-/

namespace CText.Path

variable {file R F : List UInt8} {reference : Option (List UInt8)} {cwd : WorkingDirectory}
  {names start place : List (List UInt8)}

/-- The common start is a start of both lists. -/
theorem take_commonLength (s t : List (List UInt8)) :
    s.take (commonLength s t) = t.take (commonLength s t) := by
  induction s generalizing t with
  | nil => simp [commonLength]
  | cons a s ih =>
    cases t with
    | nil => rfl
    | cons b t =>
      by_cases h : a = b
      · subst h
        rw [commonLength, if_pos rfl, List.take_succ_cons, List.take_succ_cons, ih]
      · rw [commonLength, if_neg h]
        rfl

/-- What it takes to go from one place to another: two dots for each name up to the last common
directory and the names down from there, all with one byte for a separator. -/
def distance (start place : List (List UInt8)) : Nat :=
  (start.length - commonLength place start) * 3 + weight (place.drop (commonLength place start))

theorem distance_root (place : List (List UInt8)) : distance [] place = weight place := by
  cases place <;> simp [distance, commonLength]

theorem distance_to_root (start : List (List UInt8)) : distance start [] = start.length * 3 := by
  simp [distance, commonLength]

theorem distance_cons (a b : List UInt8) (start place : List (List UInt8)) :
    distance (a :: start) (b :: place) =
      if b = a then distance start place else (start.length + 1) * 3 + weight (b :: place) := by
  rw [distance, commonLength]
  split
  · rw [List.length_cons, Nat.add_sub_add_right, List.drop_succ_cons]
    rfl
  · rfl

theorem distance_self (place : List (List UInt8)) : distance place place = 0 := by
  induction place with
  | nil => rfl
  | cons a place ih => rw [distance_cons, if_pos rfl, ih]

/-- To go down one name brings no place nearer than by the bytes of that name. -/
theorem distance_le_down (name : List UInt8) (start place : List (List UInt8)) :
    distance start place ≤ name.length + 1 + distance (start ++ [name]) place := by
  induction start generalizing place with
  | nil =>
    rw [distance_root, List.nil_append]
    cases place with
    | nil => exact Nat.zero_le _
    | cons b place =>
      rw [distance_cons, distance_root, weight_cons]
      split
      · rename_i h
        rw [h]
      · omega
  | cons a start ih =>
    cases place with
    | nil =>
      rw [distance_to_root, distance_to_root, List.length_append]
      omega
    | cons b place =>
      rw [List.cons_append, distance_cons, distance_cons]
      split
      · exact ih place
      · rw [List.length_append]
        omega

/-- To go up one name brings no place nearer than by the bytes of two dots and a separator. -/
theorem distance_le_up (name : List UInt8) (start place : List (List UInt8)) :
    distance (start ++ [name]) place ≤ 3 + distance start place := by
  induction start generalizing place with
  | nil =>
    rw [distance_root, List.nil_append]
    cases place with
    | nil => exact Nat.le_refl _
    | cons b place =>
      rw [distance_cons, distance_root, weight_cons]
      split
      · omega
      · exact Nat.le_refl _
  | cons a start ih =>
    cases place with
    | nil =>
      rw [distance_to_root, distance_to_root, List.length_append, List.length_singleton]
      omega
    | cons b place =>
      rw [List.cons_append, distance_cons, distance_cons]
      split
      · exact ih place
      · rw [List.length_append, List.length_singleton]
        omega

/-- No component brings a place nearer than by the bytes it takes. -/
theorem distance_push_le (above place : List (List UInt8)) (part : List UInt8) :
    distance above.reverse place ≤
      part.length + 1 + distance (push true above part).reverse place := by
  rcases push_cases true above part with h | h | ⟨rfl, top, h⟩
  · rw [h]
    exact Nat.le_add_left _ _
  · rw [h, List.reverse_cons]
    exact distance_le_down part _ place
  · have hup := distance_le_up top (push true above dotdot).reverse place
    rw [← List.reverse_cons, ← h] at hup
    exact hup

/-- A walk from one place to another is no shorter than their distance. -/
theorem distance_le_weight (above parts : List (List UInt8)) :
    distance above.reverse (parts.foldl (push true) above).reverse ≤ weight parts := by
  suffices h : ∀ place, distance above.reverse place ≤
      weight parts + distance (parts.foldl (push true) above).reverse place by
    have hself := h (parts.foldl (push true) above).reverse
    rwa [distance_self] at hself
  intro place
  induction parts generalizing above with
  | nil => exact Nat.le_add_left _ _
  | cons part parts ih =>
    have hstep := distance_push_le above place part
    have hrest := ih (push true above part)
    rw [List.foldl_cons, weight_cons]
    omega

/-- The walk up to the last common directory and down again. -/
def route (start place : List (List UInt8)) : List (List UInt8) :=
  List.replicate (start.length - commonLength place start) dotdot ++
    place.drop (commonLength place start)

theorem weight_route (start place : List (List UInt8)) :
    weight (route start place) = distance start place := by
  rw [route, weight_append, weight_replicate]
  rfl

/-- The route leads where it should. -/
theorem foldl_push_route (hstart : ∀ part ∈ start, Ordinary part)
    (hplace : ∀ part ∈ place, Ordinary part) :
    (route start place).foldl (push true) start.reverse = place.reverse := by
  have hdropped : (start.drop (commonLength place start)).reverse.length =
      start.length - commonLength place start := by
    rw [List.length_reverse, List.length_drop]
  have hcommon := take_commonLength place start
  have hnames : ∀ part ∈ (start.drop (commonLength place start)).reverse, Ordinary part :=
    fun part hpart => hstart part (List.mem_of_mem_drop (List.mem_reverse.1 hpart))
  have hdown : ∀ part ∈ place.drop (commonLength place start), Ordinary part :=
    fun part hpart => hplace part (List.mem_of_mem_drop hpart)
  rw [route, ← hdropped]
  generalize commonLength place start = common at hcommon hnames hdown
  calc (List.replicate (start.drop common).reverse.length dotdot ++ place.drop common).foldl
        (push true) start.reverse
    _ = (place.drop common).foldl (push true)
        ((List.replicate (start.drop common).reverse.length dotdot).foldl (push true)
          ((start.drop common).reverse ++ (start.take common).reverse)) := by
      rw [List.foldl_append, ← List.reverse_append, List.take_append_drop]
    _ = (place.drop common).foldl (push true) (start.take common).reverse := by
      rw [foldl_push_dotdots hnames]
    _ = (place.drop common).reverse ++ (place.take common).reverse := by
      rw [foldl_push_names hdown, hcommon]
    _ = place.reverse := by
      rw [← List.reverse_append, List.take_append_drop]

theorem reverse_stack_route (start place : List (List UInt8)) :
    (stack (place.drop (commonLength place start)).reverse
      (start.length - commonLength place start)).reverse = route start place := by
  rw [reverse_stack, List.reverse_reverse]
  rfl

/-- Written as a path the route to a place is in clean form. -/
theorem Canonical.route (h : Canonical true names 0 F) (start : List (List UInt8)) :
    Canonical false ((components F).drop (commonLength (components F) start)).reverse
      (start.length - commonLength (components F) start)
      (ofComponents false (route start (components F))) where
  isStack := {
    ordinary := fun part hpart =>
      h.ordinary part (List.mem_of_mem_drop (List.mem_reverse.1 hpart))
    rooted_ups := fun hrooted => nomatch hrooted }
  no_nul part hpart := by
    have hmem := List.mem_of_mem_drop (List.mem_reverse.1 hpart)
    rw [h.components_eq, List.mem_reverse] at hmem
    exact h.no_nul part hmem
  eq_ofComponents := by rw [reverse_stack_route]

/-- The route takes as many bytes as the distance says, without the separator in front, and one if
there is nowhere to go. -/
theorem length_route_le (start place : List (List UInt8)) :
    (ofComponents false (route start place)).length ≤ max 1 (distance start place - 1) := by
  rw [ofComponents_eq]
  split
  · exact Nat.le_max_left 1 _
  · rename_i hne
    have hroute : route start place ≠ [] := by
      intro hnil
      rw [hnil] at hne
      exact hne rfl
    have hlen : (joinWith slash (route start place)).length + 1 = weight (route start place) :=
      length_joinWith hroute
    rw [weight_route] at hlen
    rw [rootOf, if_neg Bool.false_ne_true, List.nil_append]
    omega

theorem relative_eq (hF : absolute file none cwd = .ok F)
    (hR : absolute (reference.getD dot) none cwd = .ok R) :
    relative file reference cwd =
      (reserve 1 (((components R).length - commonLength (components F) (components R)) * 3 +
        F.length)).map fun _ => ofComponents false (route (components R) (components F)) := by
  rw [relative, hF]
  simp only [bind, Except.bind, hR]
  cases reserve 1 (((components R).length - commonLength (components F) (components R)) * 3 +
    F.length) <;> rfl

/-- What is found relative to a place is the route there from it. -/
theorem exists_of_relative {way : List UInt8} (h : relative file reference cwd = .ok way) :
    ∃ F R, absolute file none cwd = .ok F ∧ absolute (reference.getD dot) none cwd = .ok R ∧
      way = ofComponents false (route (components R) (components F)) := by
  cases hF : absolute file none cwd with
  | error e =>
    rw [relative, hF] at h
    cases h
  | ok F =>
    cases hR : absolute (reference.getD dot) none cwd with
    | error e =>
      rw [relative, hF] at h
      simp only [bind, Except.bind, hR] at h
      cases h
    | ok R =>
      rw [relative_eq hF hR] at h
      exact ⟨F, R, rfl, rfl, (eq_of_reserve_map h).symm⟩

/-- From the place it starts at the route leads to the other place. -/
theorem absolute_route (hR : Canonical true start 0 R) (hF : Canonical true names 0 F)
    (cwd : WorkingDirectory) :
    absolute (ofComponents false (route (components R) (components F))) (some R) cwd =
      (reserve 1 (R.length + 1 +
        (ofComponents false (route (components R) (components F))).length)).map fun _ => F := by
  have hway := hF.route (components R)
  have hstart : start = (components R).reverse := by
    rw [hR.components_eq, List.reverse_reverse]
  rw [absolute_from hR hway.isAbsolute_eq, hway.content_eq, hway.foldl_push_eq,
    reverse_stack_route, hstart, foldl_push_route hR.ordinary hF.ordinary, List.reverse_reverse,
    hF.ofComponents_components]

/-- No relative path that leads from one place to another is shorter than the route. -/
theorem length_route_le_of_leads (hR : Canonical true names 0 R) (hfile : file ≠ [])
    (hrelative : isAbsolute file = false) (h : absolute file (some R) cwd = .ok F) :
    (ofComponents false (route (components R) (components F))).length ≤ file.length := by
  rw [absolute_from hR hrelative] at h
  have hwalk := eq_of_reserve_map h
  obtain ⟨last, ups, hlast, hrun⟩ := hR.isStack.run
    fun part (hpart : part ∈ split (CString.content file)) => slash_notMem_of_mem_split hpart
  have hups := hlast.rooted_ups rfl
  subst hups
  rw [stack_zero] at hrun
  have hplace : components F = (stack last 0).reverse := by
    rw [← hwalk, hrun]
    exact components_ofComponents hlast.mem_reverse
  have hdistance := distance_le_weight names (split (CString.content file))
  have hweight : weight (split (CString.content file)) = (CString.content file).length + 1 :=
    weight_fields _
  rw [hrun, hweight] at hdistance
  have hroute := length_route_le (components R) (components F)
  rw [hR.components_eq, hplace] at hroute ⊢
  have hcontent := CString.content_length_le file
  have hpos := List.length_pos_iff.2 hfile
  omega

/-- A file as seen from a reference is a clean relative path that leads back from there to the
file, and no relative path that does is shorter. -/
theorem relative_leads_back_shortest (hcwd : ∀ dir, cwd = .ok dir → isAbsolute dir = true)
    (hF : absolute file none cwd = .ok F)
    (hR : absolute (reference.getD dot) none cwd = .ok R) :
    ∃ way,
      relative file reference cwd =
        (reserve 1 (((components R).length - commonLength (components F) (components R)) * 3 +
          F.length)).map (fun _ => way) ∧
      isAbsolute way = false ∧ cleanInPlace way = .ok way ∧
      absolute way (some R) cwd =
        (reserve 1 (R.length + 1 + way.length)).map (fun _ => F) ∧
      ∀ other, other ≠ [] → isAbsolute other = false → absolute other (some R) cwd = .ok F →
        way.length ≤ other.length := by
  obtain ⟨names, hplace⟩ := exists_place hcwd hF
  obtain ⟨start, hstart⟩ := exists_place hcwd hR
  have hway := hplace.route (components R)
  refine ⟨_, relative_eq hF hR, hway.isAbsolute_eq, ?_, absolute_route hstart hplace cwd, ?_⟩
  · rw [cleanInPlace_eq, hway.clean_eq]
  · intro other hother hrelative hleads
    exact length_route_le_of_leads hstart hother hrelative hleads

/-- The hypotheses hold of a file in one directory seen from another. -/
theorem relative_leads_back_sibling :
    ∃ way,
      relative (Ascii.bytes "a") (some (Ascii.bytes "/c")) (.ok (Ascii.bytes "/b")) =
        (reserve 1 (1 * 3 + 4)).map (fun _ => way) ∧
      isAbsolute way = false ∧ cleanInPlace way = .ok way ∧
      absolute way (some (Ascii.bytes "/c")) (.ok (Ascii.bytes "/b")) =
        (reserve 1 (2 + 1 + way.length)).map (fun _ => Ascii.bytes "/b/a") ∧
      ∀ other, other ≠ [] → isAbsolute other = false →
        absolute other (some (Ascii.bytes "/c")) (.ok (Ascii.bytes "/b")) =
          .ok (Ascii.bytes "/b/a") → way.length ≤ other.length := by
  have hcwd : ∀ dir, Except.ok (Ascii.bytes "/b") = (.ok dir : WorkingDirectory) →
      isAbsolute dir = true := by
    rintro dir ⟨⟩
    rfl
  have hF : absolute (Ascii.bytes "a") none (.ok (Ascii.bytes "/b")) =
      .ok (Ascii.bytes "/b/a") := rfl
  have hR : absolute ((some (Ascii.bytes "/c")).getD dot) none (.ok (Ascii.bytes "/b")) =
      .ok (Ascii.bytes "/c") := rfl
  exact relative_leads_back_shortest hcwd hF hR

end CText.Path
