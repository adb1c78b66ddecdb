import ItemFlow.Files.Basic
/-! A directory tree held in memory, answering file operations as the operating system does:
a path is reached component by component, a missing component gives `notFound` and a file
in the middle `notDirectory`; a new directory needs a directory above it, and a file cannot
replace a directory. -/
namespace ItemFlow

/-- What a path of a tree holds. -/
inductive Entry where
  | dir
  | file (data : ByteArray)

/-- A tree of directories and files under a root directory, by component list; the root
holds no entry of its own. -/
structure FileTree where
  entries : List (List String × Entry) := []

namespace FileTree

/-- What is at a component list; the root is a directory. -/
def find? (t : FileTree) : List String → Option Entry
  | [] => some .dir
  | p => (t.entries.find? (·.1 == p)).map (·.2)

def isDir (t : FileTree) (p : List String) : Bool :=
  match t.find? p with
  | some .dir => true
  | _ => false

/-- Put an entry at a component list, replacing what was there. -/
def put (t : FileTree) (p : List String) (e : Entry) : FileTree :=
  ⟨(t.entries.filter (·.1 != p)) ++ [(p, e)]⟩

/-- Walk the directories `rest` below `done`: each must be present and a directory. -/
def reach (t : FileTree) (done : List String) : List String → Except IoError Unit
  | [] => .ok ()
  | c :: rest =>
    match t.find? (done ++ [c]) with
    | none => .error .notFound
    | some (.file _) => .error .notDirectory
    | some .dir => t.reach (done ++ [c]) rest

/-- Make one directory whose parent exists. -/
def mkdir (t : FileTree) (p : List String) : Except IoError FileTree := do
  if p.isEmpty then throw .alreadyExists
  t.reach [] p.dropLast
  if (t.find? p).isSome then throw .alreadyExists
  return t.put p .dir

/-- Make a directory and the missing ones above it, the component list given last
first: try the directory itself, and only when something above it is missing make its
parent first and try again. An existing directory is no error. -/
def createDirAllRev (t : FileTree) : List String → Except IoError FileTree
  | [] => .ok t
  | c :: rest =>
    let p := (c :: rest).reverse
    match t.mkdir p with
    | .ok t' => .ok t'
    | .error .notFound =>
      match t.createDirAllRev rest with
      | .error e => .error e
      | .ok t' =>
        match t'.mkdir p with
        | .ok t'' => .ok t''
        | .error e => if t'.isDir p then .ok t' else .error e
    | .error e => if t.isDir p then .ok t else .error e

/-- Make a directory and the missing ones above it. -/
def createDirAll (t : FileTree) (p : List String) : Except IoError FileTree :=
  t.createDirAllRev p.reverse

/-- Create or replace a file; its directory must exist, and a directory is not replaced. -/
def writeFile (t : FileTree) (p : List String) (data : ByteArray) : Except IoError FileTree := do
  if p.isEmpty then throw .notFound
  t.reach [] p.dropLast
  if t.isDir p then throw .isDirectory
  return t.put p (.file data)

def readFile (t : FileTree) (p : List String) : Except IoError ByteArray := do
  if p.isEmpty then throw .notFound
  t.reach [] p.dropLast
  match t.find? p with
  | none => throw .notFound
  | some .dir => throw .isDirectory
  | some (.file d) => return d

/-- Whether something is at a component list that can be reached. -/
def present (t : FileTree) (p : List String) : Bool :=
  match t.reach [] p.dropLast with
  | .ok () => (t.find? p).isSome
  | .error _ => false

/-- The files of a tree as slash-separated paths, in text order. -/
def files (t : FileTree) : List String :=
  (t.entries.filterMap fun (p, e) => match e with
    | .file _ => some ("/".intercalate p)
    | .dir => none).mergeSort (fun a b => decide (a ≤ b))

/-- The file at a slash-separated path, as read by `files`. -/
def fileAt? (t : FileTree) (path : String) : Option ByteArray :=
  match t.find? (Path.components path) with
  | some (.file d) => some d
  | _ => none

end FileTree

/-- Whether a path ends in a slash after some component, so that it can only name a
directory. -/
def Path.namesDirectory (p : String) : Bool := p.endsWith "/" && !(Path.components p).isEmpty

namespace FileTree

/-- Create or replace a file by a path as given: a path ending in a slash names no file. -/
def writeAt (t : FileTree) (p : String) (data : ByteArray) : Except IoError FileTree := do
  let cs := Path.components p
  if Path.namesDirectory p then
    t.reach [] cs.dropLast
    match t.find? cs with
    | some (.file _) => throw .notDirectory
    | _ => throw .isDirectory
  t.writeFile cs data

/-- The bytes of a file by a path as given: a path ending in a slash passes no file. -/
def readAt (t : FileTree) (p : String) : Except IoError ByteArray := do
  let cs := Path.components p
  if Path.namesDirectory p then
    if let some (.file _) := t.find? cs then
      t.reach [] cs.dropLast
      throw .notDirectory
  t.readFile cs

/-- Whether something is at a path as given: a path ending in a slash finds directories
only, and the empty path finds nothing. -/
def presentAt (t : FileTree) (p : String) : Bool :=
  let cs := Path.components p
  if p.isEmpty then false
  else if Path.namesDirectory p then t.present cs && t.isDir cs
  else t.present cs

end FileTree

/-- Actions on a tree held as state. -/
abbrev OnTree := StateM FileTree

/-- The file operations on a tree held as state. -/
instance : FileSystem OnTree where
  present p := return (← get).presentAt p
  createDirAll p := do
    match (← get).createDirAll (Path.components p) with
    | .ok t => set t; return .ok ()
    | .error e => return .error e
  writeFile p data := do
    match (← get).writeAt p data with
    | .ok t => set t; return .ok ()
    | .error e => return .error e
  readFile p := return (← get).readAt p

end ItemFlow
