import ItemFlow.Save.File
import ItemFlow.Failure
/-! A store of named save files in one directory: the records saved under a name are in
the file of that name with the `.hlbe` extension. Opening a store creates its directory. -/
namespace ItemFlow

/-- A store of save files in a directory, with the frame that wraps the binary form of the
records it saves. -/
structure SaveStore where
  dir : String
  frame : ByteArray → ByteArray

namespace SaveStore

variable {m : Type → Type} [Monad m] [FileSystem m]

/-- Open a store, creating its directory and the ones above it. Its payloads are framed in raw
blocks. -/
def create (dir : String) : m (Except Failure SaveStore) := do
  return (Failure.explain "Failed to create save directory" (← FileSystem.createDirAll dir)).map
    fun _ => ⟨dir, Frame.encodeRaw⟩

def pathOf (s : SaveStore) (name : String) : String := Path.join s.dir (name ++ ".hlbe")

def has (s : SaveStore) (name : String) : m Bool := FileSystem.present (s.pathOf name)

/-- Save records under a name, replacing an earlier save. -/
def save (s : SaveStore) (name : String) (rs : List Record) : m (Except Failure Unit) := do
  return Failure.explain "Failed to create save file" (← FileSystem.writeFile (s.pathOf name) (SaveFile.write s.frame rs))

/-- The records saved under a name. A directory in the place of the file opens but cannot
be read, so it fails as a missing header does. -/
def load (s : SaveStore) (name : String) : m (Except Failure (List Record)) := do
  match ← FileSystem.readFile (s.pathOf name) with
  | .error .isDirectory => return .error ((Failure.ofIo .isDirectory).context "Failed to read save header")
  | .error e => return .error ((Failure.ofIo e).context ("Failed to open save file " ++ s.pathOf name))
  | .ok bytes =>
    match SaveFile.read bytes with
    | .ok rs => return .ok rs
    | .error e => return .error (.root e.message)

end SaveStore

end ItemFlow
