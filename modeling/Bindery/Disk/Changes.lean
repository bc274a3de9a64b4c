import Bindery.Disk.Tree

/-!
# Changes of file trees

What tells one state of a disk from another one: entries that came or changed, and entries that
went. People are shown leaves only: files, and directories without anything in them.
-/

namespace Bindery

/-- What stands at the end of a walk: a file with its content, or a directory with nothing in it. -/
structure Leaf where
  path : String
  content : Option FileContent
  deriving DecidableEq

/-- What became of the leaves of a tree. -/
structure Changes where
  /-- Leaves that are new, or files with another content. -/
  written : List Leaf
  /-- The paths of leaves that are none any more, in their order. -/
  removed : List String

namespace Disk

/-- The disk with a file, or with a directory if there is no content. Directories above it are made
where they are missing. -/
def seed (disk : Disk) (path : String) : Option FileContent → Disk
  | none => (disk.makeDirectories path).2
  | some content =>
    let disk := (disk.makeDirectories ((Path.parent? path).getD "")).2
    (disk.writeFile path content).toOption.getD disk

/-- The leaves below the directory at hand that are reached along some keys. -/
def leaves (disk : Disk) (isShown : DiskKey → Bool) : List Leaf :=
  (disk.below disk.home).filterMap fun (key, entry) =>
    if isShown key then
      match entry with
      | .file content => some ⟨Path.ofPieces key, some content⟩
      | .directory =>
        if (disk.below (disk.home ++ key)).isEmpty then some ⟨Path.ofPieces key, none⟩ else none
    else none

def changes (isShown : DiskKey → Bool) (before after : Disk) : Changes :=
  let old := before.leaves isShown
  let new := after.leaves isShown
  let isKept (l : Leaf) : Bool :=
    new.any fun m => m.path = l.path && m.content.isSome = l.content.isSome
  { written := new.filter fun l => !old.contains l
    removed := ((old.filter fun l => !isKept l).map Leaf.path).mergeSort fun a b => a ≤ b }

/-- The entries that are new in a later state, or that are others there. -/
def gained (before after : Disk) : List (DiskKey × DiskEntry) :=
  after.entries.entries.filter fun (key, entry) => before.entry? key ≠ some entry

/-- The keys that have no entry any more in a later state. -/
def lost (before after : Disk) : List DiskKey :=
  before.entries.keys.filter fun key => (after.entry? key).isNone

end Disk

end Bindery
