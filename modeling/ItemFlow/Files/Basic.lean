/-! Paths, file errors and the file operations a run performs. A path is text as the user gave
it; it names what its components name, the parts between slashes with empty parts and `.`
left out, and `..` stepping back out of the part before it. Errors carry the operating
system's codes and texts, because a run prints them. -/
namespace ItemFlow

/-- Why a file operation failed, by operating-system error code. -/
inductive IoError where
  | notFound
  | alreadyExists
  | notDirectory
  | isDirectory
  | other (code : UInt32) (text : String)
deriving DecidableEq, Repr

namespace IoError

def code : IoError → UInt32
  | .notFound => 2
  | .alreadyExists => 17
  | .notDirectory => 20
  | .isDirectory => 21
  | .other c _ => c

def text : IoError → String
  | .notFound => "No such file or directory"
  | .alreadyExists => "File exists"
  | .notDirectory => "Not a directory"
  | .isDirectory => "Is a directory"
  | .other _ t => t

/-- The printed form: the description followed by the code. -/
def message (e : IoError) : String :=
  e.text ++ " (os error " ++ toString e.code ++ ")"

end IoError

namespace Path

/-- The components a path names, resolving `.` and `..` by text. -/
def components (p : String) : List String :=
  ((p.splitOn "/").foldl (fun acc c =>
    if c.isEmpty || c == "." then acc
    else if c == ".." then acc.drop 1
    else c :: acc) []).reverse

def trimSlashes (s : String) : String :=
  String.ofList (s.toList.reverse.dropWhile (· == '/')).reverse

/-- The directory part of a path: the text before its last component with the slashes
between them removed, or nothing for the empty path and the root. -/
def parent? (p : String) : Option String :=
  let body := trimSlashes p
  if body.isEmpty then none
  else
    let before := (body.toList.reverse.dropWhile (· != '/')).reverse
    if before.isEmpty then some ""
    else
      let dir := trimSlashes (String.ofList before)
      some (if dir.isEmpty then "/" else dir)

/-- A name inside a directory: an absolute name stands alone, and one slash divides the
two otherwise. -/
def join (dir name : String) : String :=
  if name.startsWith "/" || dir.isEmpty then name
  else if dir.endsWith "/" then dir ++ name
  else dir ++ "/" ++ name

end Path

/-- The file operations a run performs, in a monad that can perform them. -/
class FileSystem (m : Type → Type) where
  /-- Whether a file or a directory is at a path. -/
  present : String → m Bool
  /-- Create a directory and every missing one above it; an existing directory is no
  error. -/
  createDirAll : String → m (Except IoError Unit)
  /-- Create or empty a file and write bytes to it. -/
  writeFile : String → ByteArray → m (Except IoError Unit)
  /-- The bytes of a file; reading a directory fails with `isDirectory`. -/
  readFile : String → m (Except IoError ByteArray)

end ItemFlow
