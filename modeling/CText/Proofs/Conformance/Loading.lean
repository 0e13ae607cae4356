import CText.Conformance.Load
import CText.Proofs.Files.Machine
import Mathlib.Data.List.Perm.Basic

/-!
# What is loaded

Under a path there is a set, or a directory in which some files hold sets. All of them are loaded
and nothing else, in an order that does not depend on that of the listing.
-/

namespace CText

namespace FileTree

open Conformance

def HoldsSet (t : FileTree) (path : String) (set : FixtureSet) : Prop :=
  ∃ bytes text, t.read path = .ok bytes ∧ Utf8.text? bytes = some text ∧
    FixtureSet.read text = .ok set

/-- A file with a set, or a directory whose files hold sets, as far as their names say that they
do. -/
inductive HoldsSets (t : FileTree) (path : String) : List FixtureSet → Prop
  | file {set : FixtureSet} (alone : t.isFile path = true) (holds : t.HoldsSet path set) :
      HoldsSets t path [set]
  | directory {names : List String} {sets : List FixtureSet} (together : t.isFile path = false)
      (listed : t.list path = .ok names)
      (holds : List.Forall₂ (fun name set => t.HoldsSet (Files.join path name) set)
        (names.filter holdsSet) sets) :
      HoldsSets t path sets

end FileTree

namespace Conformance

open Machine

variable {t : FileTree}

/-- What is loaded are these sets, and the files stay as they are. -/
def Loads (t : FileTree) (sets : List FixtureSet) (result : Except LoadFault (List LoadedSet))
    (t' : FileTree) : Prop :=
  t' = t ∧ ∃ loaded, result = .ok loaded ∧ loaded.map (·.set) = sets

theorem runs_loadFile {path : String} {set : FixtureSet} (h : t.HoldsSet path set) :
    Runs (loadFile path) t fun result t' => t' = t ∧ result = .ok ⟨path, set⟩ := by
  obtain ⟨bytes, text, hread, htext, hset⟩ := h
  refine Runs.bind (runs_readText hread htext ?_)
  dsimp only
  rw [hset]
  exact runs_pure ⟨rfl, rfl⟩

theorem runs_loadFiles {paths : List String} {sets : List FixtureSet}
    (h : List.Forall₂ t.HoldsSet paths sets) :
    Runs (loadFiles paths) t (Loads t sets) := by
  induction h with
  | nil => exact runs_pure ⟨rfl, [], rfl, rfl⟩
  | @cons path set paths sets hset hrest ih =>
    refine Runs.bind ((runs_loadFile hset).mono ?_)
    rintro result t' ⟨rfl, rfl⟩
    refine Runs.bind (ih.mono ?_)
    rintro result t'' ⟨rfl, loaded, rfl, rfl⟩
    exact runs_pure ⟨rfl, ⟨path, set⟩ :: loaded, rfl, rfl⟩

/-- Exactly the sets under a path are loaded, in some order. -/
theorem runs_loadAll {path : String} {sets : List FixtureSet} (h : t.HoldsSets path sets) :
    Runs (loadAll path) t fun result t' =>
      ∃ inOrder, inOrder.Perm sets ∧ Loads t inOrder result t' := by
  refine Runs.bind (runs_ask ?_)
  cases h with
  | @file set alone holds =>
    rw [alone, if_pos rfl]
    refine (runs_loadFiles (.cons holds .nil)).mono fun result t' hloads => ?_
    exact ⟨[set], .refl _, hloads⟩
  | @directory names _ together listed holds =>
    rw [together, if_neg (by decide)]
    refine Runs.bind (runs_ask ?_)
    rw [listed]
    obtain ⟨inOrder, hholds, hperm⟩ :=
      List.perm_comp_forall₂ (List.mergeSort_perm (names.filter holdsSet) fun a b => a ≤ b) holds
    refine (runs_loadFiles ?_).mono fun result t' hloads => ⟨inOrder, hperm, hloads⟩
    exact List.forall₂_map_left_iff.2 hholds

end Conformance

end CText
