import Preload.InjectError
import Preload.Layout
/-!
# Runs

A run is the state that all files of one build share: the store that output goes to, the contents of
the support module, and the output trees that have received it.
-/

namespace Preload

/-- The state of a build. -/
structure Run where
  store : FileStore
  /-- The contents of the support module. -/
  payload : String
  /-- The output trees that are known to have the module, oldest first. -/
  recorded : List Path
  deriving DecidableEq, Repr, Inhabited

namespace Run

/-- A run in which no output tree is recorded. -/
def fresh (store : FileStore) (payload : String) : Run :=
  ⟨store, payload, []⟩

/-- Whether an output tree is recorded. -/
def isRecorded (r : Run) (root : Path) : Bool :=
  r.recorded.any (·.components = root.components)

/-- Writes the support module for a placement, and says whether it did. With `cache` it is written
only if its output tree is not recorded, and then recorded. -/
def materialize (p : Placement) (cache : Bool) (r : Run) : Except InjectError Bool × Run :=
  if cache && r.isRecorded p.destRoot then (.ok false, r)
  else
    match r.store.writeWithParents p.destPath r.payload with
    | (.ok (), store) =>
      let recorded := if cache then r.recorded ++ [p.destRoot] else r.recorded
      (.ok true, { r with store, recorded })
    | (.error cause, store) => (.error (.store p.destPath cause), { r with store })

/-- The texts of the recorded output trees in order. -/
def recordedTexts (r : Run) : List String :=
  (r.recorded.map Path.text).mergeSort

end Run

end Preload
