import CText.Log.Artifact
import CText.Proofs.Files.Machine
import Mathlib.Data.List.Forall2

/-!
# Indexes of files that are there

Files that can be read are added to an index in their order, each with the digest and the size of
what it holds. As long as they hold it, none of them is stale.
-/

namespace CText.Log

open Machine

variable {t : FileTree}

/-- An artifact that tells of a file, given by its path and its kind, what the file holds. -/
def Describes (t : FileTree) (listed : String × String) (a : Artifact) : Prop :=
  ∃ content, t.read listed.1 = .ok content ∧ a = .ofContent listed.1 listed.2 content

/-- Artifacts describe their files as long as these are not changed. -/
theorem describes_of_read_eq {t' : FileTree} {listed : List (String × String)}
    {artifacts : List Artifact} (h : ∀ file ∈ listed, t'.read file.1 = t.read file.1)
    (describes : List.Forall₂ (Describes t) listed artifacts) :
    List.Forall₂ (Describes t') listed artifacts := by
  induction describes with
  | nil => exact .nil
  | cons hfile _ ih =>
    rw [List.forall_mem_cons] at h
    obtain ⟨content, hread, ha⟩ := hfile
    exact .cons ⟨content, h.1.trans hread, ha⟩ (ih h.2)

theorem runs_addFile {i : ArtifactIndex} {path kind : String} {content : List UInt8}
    (h : t.read path = .ok content) :
    Runs (i.addFile path kind) t fun result t' =>
      t' = t ∧ result = .ok (i.add (.ofContent path kind content)) := by
  refine Runs.bind (runs_ask ?_)
  rw [h]
  exact runs_pure ⟨rfl, rfl⟩

/-- Files that can be read are added one after the other. -/
theorem runs_addFiles {listed : List (String × String)}
    (h : ∀ file ∈ listed, ∃ content, t.read file.1 = .ok content) (i : ArtifactIndex) :
    Runs (i.addFiles listed) t fun result t' =>
      t' = t ∧ ∃ artifacts, List.Forall₂ (Describes t) listed artifacts ∧
        result = .ok { i with artifacts := i.artifacts ++ artifacts } := by
  induction listed generalizing i with
  | nil => exact runs_pure ⟨rfl, [], .nil, by rw [List.append_nil]⟩
  | cons file listed ih =>
    obtain ⟨path, kind⟩ := file
    rw [List.forall_mem_cons] at h
    obtain ⟨⟨content, hcontent⟩, hothers⟩ := h
    refine Runs.bind ((runs_addFile hcontent).mono ?_)
    rintro result t' ⟨rfl, rfl⟩
    refine (ih hothers _).mono ?_
    rintro result t' ⟨rfl, artifacts, hartifacts, rfl⟩
    refine ⟨rfl, _ :: artifacts, .cons ⟨content, hcontent, rfl⟩ hartifacts, ?_⟩
    simp [ArtifactIndex.add]

/-- An artifact that describes its file is not stale. -/
theorem runs_staleAmong {listed : List (String × String)} {artifacts : List Artifact}
    (h : List.Forall₂ (Describes t) listed artifacts) :
    Runs (ArtifactIndex.staleAmong artifacts) t fun stale t' => t' = t ∧ stale = [] := by
  induction h with
  | nil => exact runs_pure ⟨rfl, rfl⟩
  | @cons file a listed artifacts hdescribes _ ih =>
    obtain ⟨content, hread, rfl⟩ := hdescribes
    refine Runs.bind (runs_ask ?_)
    refine Runs.bind (ih.mono ?_)
    rintro stale t' ⟨rfl, rfl⟩
    have hfresh : (Artifact.ofContent file.1 file.2 content).isStale
        (t'.read file.1).toOption = false := by
      rw [hread]
      exact bne_self_eq_false _
    refine runs_pure ⟨rfl, ?_⟩
    rw [if_neg]
    rw [Bool.not_eq_true]
    exact hfresh

theorem runs_stalePaths {listed : List (String × String)} {i : ArtifactIndex}
    (h : List.Forall₂ (Describes t) listed i.artifacts) :
    Runs i.stalePaths t fun stale t' => t' = t ∧ stale = [] := by
  refine Runs.bind ((runs_staleAmong h).mono ?_)
  rintro stale t' ⟨rfl, rfl⟩
  exact runs_pure ⟨rfl, rfl⟩

end CText.Log
