import Mathlib.Data.List.Dedup
import NexusAgent.Lib.Glob
import NexusAgent.Lib.Json
import NexusAgent.Lib.Replace
import NexusAgent.Scope.Keys
import NexusAgent.Storage.Resolve

/-!
# The artifact store

`nexus/artifacts/store.py`. An artifact lies in a folder made of the pieces of its scope's key, in a
file named by its id and the file name it was given. It is looked up with a shell pattern made of the
id the caller gives.

Paths are absolute and there are no links. The operating system lists a folder in an order of its
own.
-/

open Lib

namespace Nexus.Artifacts

/-- The content of a file. -/
abbrev Bytes : Type := List UInt8

/-- The text of `uuid.uuid4()`. -/
structure Uuid where
  text : String
  length_text : text.toList.length = 36
  digits : ∀ c ∈ text.toList, c ∈ "0123456789abcdef-".toList

/-- `ArtifactMeta`. -/
structure ArtifactMeta where
  id : String
  filename : String
  contentType : String := "application/octet-stream"
  sizeBytes : ℕ := 0
  metadata : Dict String Json := []

/-- The folders and the files below the root of the file system. -/
structure FileTree where
  folders : List Path := []
  files : Dict Path Bytes := []

/-- The names in a folder. -/
def FileTree.names (tree : FileTree) (folder : Path) : List String :=
  ((tree.files.map Prod.fst ++ tree.folders).filterMap fun p =>
    match p.reverse with
    | name :: parent => if parent.reverse = folder then some name else none
    | [] => none).dedup

/-- `path.mkdir(parents=True, exist_ok=True)`; nothing if there is a file on the way. -/
def FileTree.mkdir (tree : FileTree) (path : Path) : Option FileTree :=
  if ∃ p ∈ tree.files.map Prod.fst, p <+: path then none
  else some { tree with folders := tree.folders ++ path.inits }

/-- The names a pattern stands for; nothing if it has two stars in a row, which `glob` refuses. -/
def globNames (pattern : String) (names : List String) : Option (List String) :=
  if PyStr.Within "**" pattern then none
  else some (names.filter fun name => Glob.fnmatch pattern.toList name.toList)

/-- `LocalArtifactStore`: its resolved root. -/
structure LocalArtifactStore where
  root : Path
  root_resolved : ∀ c ∈ root, Component c

namespace LocalArtifactStore

variable (store : LocalArtifactStore)

/-- `_ensure_inside`; nothing if the path leads out of the root. -/
def ensureInside (path : Path) : Option Path :=
  if store.root <+: path.resolve then some path.resolve else none

/-- `path / sanitize_segment(segment, fallback="_")`. -/
def below (path : Path) (segment : String) : Path :=
  path.join (sanitizeSegment (some segment) "_")

/-- The pieces of a scope's key, one below the other. -/
def folder (ctx : RunContext) : Path :=
  (PyStr.split ':' (scopeKey ctx .user "artifacts")).foldl below store.root

/-- `_dir`: the folder of a scope, which is made if it is not there; nothing if that fails. -/
def dir (tree : FileTree) (ctx : RunContext) : Option (Path × FileTree) := do
  let path ← store.ensureInside (store.folder ctx)
  let tree ← tree.mkdir path
  return (path, tree)

/-- The name of an artifact's file. -/
def fileName (aid : Uuid) (filename : String) : String :=
  aid.text ++ "_" ++ sanitizeSegment (some filename) "artifact"

/-- `put`: what it returns, nothing if it raises, and the files after it. -/
def put (tree : FileTree) (ctx : RunContext) (data : Bytes) (filename contentType : String)
    (aid : Uuid) : Option ArtifactMeta × FileTree :=
  match store.dir tree ctx with
  | none => (none, tree)
  | some (folder, tree) =>
    match store.ensureInside (folder.join (fileName aid filename)) with
    | none => (none, tree)
    | some path =>
      -- write_bytes on a directory raises
      if path ∈ tree.folders then (none, tree)
      else
        (some {
          id := aid.text
          filename := filename
          contentType := contentType
          sizeBytes := data.length },
        { tree with files := Dict.set tree.files path data })

/-- `get` where a folder is listed in the given order: what it returns, nothing if it raises, and the
files after it. -/
def get (order : List String → List String) (tree : FileTree) (ctx : RunContext)
    (artifactId : String) : Option (Option Bytes) × FileTree :=
  let safeId := sanitizeSegment (some artifactId) ""
  if safeId = "" then (some none, tree)
  else
    match store.dir tree ctx with
    | none => (none, tree)
    | some (folder, tree) =>
      match globNames (safeId ++ "_*") (order (tree.names folder)) with
      | none => (none, tree)
      | some [] => (some none, tree)
      -- a folder cannot be read
      | some (name :: _) => ((Dict.get? tree.files (folder ++ [name])).map some, tree)

end LocalArtifactStore

/-! ### Histories -/

/-- A call of the store. -/
inductive Call
  | put (ctx : RunContext) (data : Bytes) (filename contentType : String) (aid : Uuid)
  | get (ctx : RunContext) (artifactId : String)

/-- An artifact: what was put, and the id that was returned. -/
structure Artifact where
  ctx : RunContext
  data : Bytes
  filename : String
  aid : Uuid

/-- The files, and the artifacts that were put. -/
structure History where
  tree : FileTree := {}
  artifacts : List Artifact := []

/-- The history after one more call. -/
def Call.run (store : LocalArtifactStore) (history : History) : Call → History
  | .put ctx data filename contentType aid =>
    let (returned, tree) := store.put history.tree ctx data filename contentType aid
    { tree := tree
      artifacts := history.artifacts ++ (returned.map fun _ => ⟨ctx, data, filename, aid⟩).toList }
  | .get ctx artifactId =>
    { history with tree := (store.get id history.tree ctx artifactId).2 }

/-- The history of some calls. -/
def runAll (store : LocalArtifactStore) (calls : List Call) : History :=
  calls.foldl (Call.run store) {}

/-- The ids made up for the calls. -/
def aids (calls : List Call) : List String :=
  calls.filterMap fun call =>
    match call with
    | .put _ _ _ _ aid => some aid.text
    | .get _ _ => none

end Nexus.Artifacts
