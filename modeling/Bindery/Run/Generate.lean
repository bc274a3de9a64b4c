import Bindery.Emission.FileStore
import Bindery.Run.Pipeline
import Bindery.Symbols.Load

/-!
# Generating from disk to disk

The whole way from a snapshot on disk to generated files on disk.
-/

namespace Bindery.Settings

/-- Loads the snapshot under a path and writes what is generated from it. The disk shows what was
done before a failure. -/
def generate (settings : Settings) (disk : Disk) (symbols processTag clock : String) :
    Except Fault Report × Disk :=
  match Snapshot.loadPath disk symbols with
  | .error fault => (.error fault, disk)
  | .ok t =>
    let store := FileStore.ofSettings disk settings.output processTag clock
    let finished := (Pipeline.build settings []).run t store
    (finished.result, finished.store.disk)

end Bindery.Settings
