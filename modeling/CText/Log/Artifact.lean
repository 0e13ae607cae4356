import CText.Digest
import CText.Files.Basic
import CText.Json.Printer

/-!
# Artifacts of a run

An index lists the files that a run left, with their digests. An artifact is stale if its file can
no longer be read or has another digest by now.
-/

namespace CText.Log

structure Artifact where
  path : String
  kind : String
  sha256 : String
  /-- The size in bytes, if the file was measured. -/
  size : Option Nat
  deriving DecidableEq

namespace Artifact

/-- A file that is there and holds some bytes. -/
def ofContent (path kind : String) (content : List UInt8) : Artifact :=
  ⟨path, kind, Digest.sha256Hex content, some content.length⟩

/-- Whether an artifact is stale, given what its file holds if it can be read. -/
def isStale (a : Artifact) (content : Option (List UInt8)) : Bool :=
  match content with
  | some bytes => Digest.sha256Hex bytes != a.sha256
  | none => true

def toJson (a : Artifact) : Json :=
  .object ([("path", .text a.path), ("kind", .text a.kind), ("sha256", .text a.sha256)] ++
    match a.size with
    | some n => [("size_bytes", .ofNat n)]
    | none => [])

end Artifact

structure ArtifactIndex where
  runId : String
  campaign : String
  generatedUtc : String
  artifacts : List Artifact

namespace ArtifactIndex

def version : Nat := 1

def start (runId campaign generatedUtc : String) : ArtifactIndex :=
  ⟨runId, campaign, generatedUtc, []⟩

def add (i : ArtifactIndex) (a : Artifact) : ArtifactIndex :=
  { i with artifacts := i.artifacts ++ [a] }

section

variable {m : Type → Type} [Monad m] [Files m]

def addFile (i : ArtifactIndex) (path kind : String) : m (Except FileFault ArtifactIndex) := do
  return (← Files.read path).map fun content => i.add (.ofContent path kind content)

def addFiles (i : ArtifactIndex) : List (String × String) → m (Except FileFault ArtifactIndex)
  | [] => return .ok i
  | (path, kind) :: rest => do
    match ← i.addFile path kind with
    | .error fault => return .error fault
    | .ok i => i.addFiles rest

def staleAmong : List Artifact → m (List Artifact)
  | [] => return []
  | a :: rest => do
    let content ← Files.read a.path
    let others ← staleAmong rest
    return if a.isStale content.toOption then a :: others else others

def stalePaths (i : ArtifactIndex) : m (List String) := do
  return (← staleAmong i.artifacts).map (·.path)

end

def toJson (i : ArtifactIndex) : Json :=
  .object [("index_version", .ofNat version), ("run_id", .text i.runId),
    ("campaign", .text i.campaign), ("generated_utc", .text i.generatedUtc),
    ("artifacts", .list (i.artifacts.map Artifact.toJson))]

def render (i : ArtifactIndex) : String := i.toJson.pretty

end ArtifactIndex

end CText.Log
