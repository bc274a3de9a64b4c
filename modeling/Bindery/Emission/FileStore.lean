import Bindery.Digest.Sha256
import Bindery.Disk.Tree
import Bindery.Emission.Manifest
import Bindery.Settings.Basic

/-!
# The store on disk

Writes every unit to a file of its own below a root: directories follow the package. A file is
written under a temporary name and then renamed, so that there is always either the old file or
the new one. When a run ends, sources that it did not write may be removed, and a manifest may be
written.
-/

namespace Bindery

/-- A disk with the settings of the store and the entries of the units written so far. -/
structure FileStore where
  disk : Disk
  root : String
  cleanStale : Bool := false
  manifest : Bool := true
  /-- Tells the temporary files of this program from those of others. -/
  processTag : String
  /-- The time that the manifest carries. -/
  clock : String
  written : OrderedMap UnitKey ManifestEntry := .empty
  /-- How many temporary names were given out. -/
  counter : Nat := 0

namespace FileStore

def ofSettings (disk : Disk) (settings : OutputSettings) (processTag clock : String) : FileStore :=
  { disk, root := settings.dir, cleanStale := settings.cleanStale, manifest := settings.manifest
    processTag, clock }

def temporaryMark : String := ".sealanttmp."

def sourceExtension : String := "kt"

def occursIn (part : List Char) : List Char → Bool
  | [] => part.isEmpty
  | c :: rest => part.isPrefixOf (c :: rest) || occursIn part rest

def remark (level : Level) (message : String) (fields : List String) : Note :=
  { level, target := "sealant_emitter::file", message, fields }

def relativePath (key : UnitKey) : String :=
  let name := key.file ++ "." ++ sourceExtension
  if key.package.isEmpty then name
  else String.ofList (key.package.toList.map fun c => if c = '.' then '/' else c) ++ "/" ++ name

def pathFor (s : FileStore) (key : UnitKey) : String := Path.join s.root (relativePath key)

/-- The entries written so far, in the order of their keys. -/
def entries (s : FileStore) : List ManifestEntry := s.written.values

def temporaryPath (s : FileStore) (target : String) : String :=
  Path.withFileName target
    ((Path.fileName? target).getD "" ++ temporaryMark ++ s.processTag ++ "." ++ toString s.counter)

def failed (s : FileStore) (context : String) (kind : IoKind) : Outcome FileStore :=
  ⟨.error (.ofIo kind context), s, []⟩

/-- Moves a complete temporary file over its target. A file that cannot be moved is removed. -/
def swap (s : FileStore) (temporary target : String) : Outcome FileStore :=
  match s.disk.rename temporary target with
  | .ok disk => ⟨.ok (), { s with disk }, [remark .debug "File saved atomically" ["path"]]⟩
  | .error kind =>
    failed { s with disk := s.disk.discard temporary }
      ("Atomic swap failed: " ++ temporary ++ " -> " ++ target) kind

def writeThrough (s : FileStore) (target content : String) : Outcome FileStore :=
  let temporary := s.temporaryPath target
  let s := { s with counter := s.counter + 1 }
  match s.disk.createFile temporary (.text content) with
  | .ok disk => { s with disk }.swap temporary target
  | .error kind => failed s ("Temp creation failed: " ++ temporary) kind

/-- Writes a file, so that either its old or its new content is there at any time. -/
def writeAtomic (s : FileStore) (target content : String) : Outcome FileStore :=
  match Path.parent? target with
  | none => s.writeThrough target content
  | some parent =>
    match s.disk.makeDirectories parent with
    | (.ok (), disk) => { s with disk }.writeThrough target content
    | (.error kind, disk) =>
      failed { s with disk } ("Failed to create directory " ++ parent) kind

def entryOf (u : GeneratedUnit) (content : String) : ManifestEntry where
  package := u.file.package
  file := u.file.name
  path := relativePath u.key
  generator := u.generator
  sha256 := Sha256.fingerprint content
  provenance := u.provenance

def emit (s : FileStore) (u : GeneratedUnit) : Outcome FileStore :=
  match s.written.get? u.key with
  | some first => ⟨.error (emissionConflict u.key first.generator u.generator), s, []⟩
  | none =>
    let content := u.text
    let outcome := s.writeAtomic (s.pathFor u.key) content
    match outcome.result with
    | .error _ => outcome
    | .ok () =>
      let written := outcome.store.written.insert u.key (entryOf u content)
      { outcome with store := { outcome.store with written } }

/-! ## Stale files -/

def pathOf (s : FileStore) (names : DiskKey) : String :=
  if names.isEmpty then s.root else Path.join s.root (Path.ofPieces names)

/-- Whether an entry at the root or below it is out of reach, because its path is refused. -/
def isOutOfReach (s : FileStore) (names : DiskKey) : Bool :=
  (Disk.refusal? (s.pathOf names)).isSome

/-- Whether a file below the root is a source or a temporary file that this run did not write. -/
def isStale (s : FileStore) (names : DiskKey) : Bool :=
  let path := s.pathOf names
  let isSource := Path.extension? path = some sourceExtension
  let isTemporary := occursIn temporaryMark.toList (names.getLast?.getD "").toList
  let isKept := s.written.keys.any fun key => Path.parts (s.pathFor key) = Path.parts path
  (isSource || isTemporary) && !isKept

/-- The files below a root that are stale. Those in a directory that is out of reach are not
seen. -/
def staleFiles (s : FileStore) (root : DiskKey) : List DiskKey :=
  (s.disk.below root).filterMap fun
    | (names, .file _) =>
      if s.isStale names && !s.isOutOfReach names.dropLast then some names else none
    | (_, .directory) => none

/-- Removes files below a root, and then the directories in which nothing is left. Directories that
are out of reach stay. -/
def clear (s : FileStore) (root : DiskKey) (stale : List DiskKey) : Disk :=
  let disk := stale.foldl (fun disk names => disk.remove (root ++ names)) s.disk
  let staying := (disk.below root).filterMap fun
    | (names, .file _) => some names
    | (names, .directory) => if s.isOutOfReach names then some names else none
  let isKept (key : DiskKey) (entry : DiskEntry) : Bool :=
    match entry with
    | .file _ => true
    | .directory =>
      !(root.isPrefixOf key && key ≠ root) ||
        staying.any fun names => key.isPrefixOf (root ++ names)
  { disk with entries := disk.entries.filter isKept }

def removeStale (s : FileStore) : FileStore × List Note :=
  match s.disk.lookup s.root with
  | .ok (root, .directory) =>
    let (stuck, stale) := (s.staleFiles root).partition s.isOutOfReach
    ({ s with disk := s.clear root stale },
      stuck.map (fun _ => remark .warn "Stale file not removed" ["path", "error"]) ++
        if stale.isEmpty then [] else [remark .info "Removed stale outputs" ["removed", "root"]])
  | _ => (s, [])

def manifestOf (s : FileStore) : Manifest :=
  { version := Manifest.currentVersion, generatedAt := s.clock, units := s.entries }

def writeManifest (s : FileStore) : Outcome FileStore :=
  if s.manifest then
    s.writeAtomic (Path.join s.root Manifest.fileName) s.manifestOf.toJson.pretty
  else ⟨.ok (), s, []⟩

def finish (s : FileStore) : Outcome FileStore :=
  let (s, notes) := if s.cleanStale then s.removeStale else (s, [])
  let outcome := s.writeManifest
  let last := match outcome.result with
    | .ok () => [remark .info "Output written" ["units", "root"]]
    | .error _ => []
  { outcome with notes := notes ++ outcome.notes ++ last }

instance : Store FileStore where
  emit := emit
  finish := finish

end FileStore

end Bindery
