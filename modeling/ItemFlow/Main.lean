import ItemFlow.Cli.Run
/-! The layout runner on the real file system. -/
namespace ItemFlow

/-- The error code and text of a failed system call. -/
def IoError.ofSystem : IO.Error → IoError
  | .alreadyExists _ c t | .otherError c t | .resourceBusy c t | .resourceVanished c t
  | .unsupportedOperation c t | .hardwareFault c t | .unsatisfiedConstraints c t
  | .illegalOperation c t | .protocolError c t | .timeExpired c t | .interrupted _ c t
  | .noFileOrDirectory _ c t | .invalidArgument _ c t | .permissionDenied _ c t
  | .resourceExhausted _ c t | .inappropriateType _ c t | .noSuchThing _ c t =>
    match c with
    | 2 => .notFound
    | 17 => .alreadyExists
    | 20 => .notDirectory
    | 21 => .isDirectory
    | _ => .other c t
  | .unexpectedEof => .other 0 "failed to fill whole buffer"
  | .userError t => .other 0 t

def attempt {α : Type} (x : IO α) : IO (Except IoError α) := do
  match ← x.toBaseIO with
  | .ok a => return .ok a
  | .error e => return .error (IoError.ofSystem e)

/-- Whether a path names a directory: only then does it resolve with `/.` after it. -/
def isDirectory (p : String) : IO Bool := do
  return (← attempt (IO.FS.realPath (p ++ "/."))) matches .ok _

/-- Make a directory and the missing ones above it: the directory itself first, its
parent only when something above it is missing; an existing directory is no error.
`fuel` bounds the depth. -/
def createDirs : Nat → String → IO (Except IoError Unit)
  | 0, _ => return .error (.other 0 "failed to create whole tree")
  | fuel + 1, p => do
    if p.isEmpty then return .ok ()
    match ← attempt (IO.FS.createDir p) with
    | .ok () => return .ok ()
    | .error .notFound =>
      match Path.parent? p with
      | none => return .error (.other 0 "failed to create whole tree")
      | some q =>
        if let .error e ← createDirs fuel q then return .error e
        match ← attempt (IO.FS.createDir p) with
        | .ok () => return .ok ()
        | .error e => return if ← isDirectory p then .ok () else .error e
    | .error e => return if ← isDirectory p then .ok () else .error e

/-- The file operations on the real file system. -/
instance : FileSystem IO where
  present p := do
    if p.isEmpty then return false
    return (← attempt (IO.FS.realPath p)) matches .ok _
  createDirAll p := createDirs (p.length + 1) p
  writeFile p data := attempt (IO.FS.writeBinFile p data)
  readFile p := attempt (IO.FS.readBinFile p)

end ItemFlow

def main (args : List String) : IO UInt32 := do
  let out ← ItemFlow.Cli.run args
  IO.print out.stdout
  IO.eprint out.stderr
  return out.status
