import ItemFlow.Failure
/-! Golden files: a text is checked against the file that holds its expected form, line by
line, or written into that file when updating. Lines are split at line feeds; a carriage
return before a line feed is not part of a line, and a final line feed ends the last line
rather than starting an empty one. The first line that differs is reported, a missing line
showing as `<eof>`. -/
namespace ItemFlow.Golden

def dropCarriageReturn (s : String) : String :=
  if s.endsWith "\r" then String.ofList s.toList.dropLast else s

def lines (s : String) : List String :=
  let parts := s.splitOn "\n"
  let ended := parts.dropLast.map dropCarriageReturn
  match parts.getLast? with
  | some "" | none => ended
  | some last => ended ++ [last]

/-- The first line, counted from `n`, where two lists of lines differ, with both lines. -/
def firstDifference (n : Nat) : List String → List String → Option (Nat × String × String)
  | [], [] => none
  | w :: ws, g :: gs => if w == g then firstDifference (n + 1) ws gs else some (n, w, g)
  | w :: _, [] => some (n, w, "<eof>")
  | [], g :: _ => some (n, "<eof>", g)

/-- The first line where an expected text and an actual text differ, counted from one. -/
def difference (expected actual : String) : Option (Nat × String × String) :=
  firstDifference 1 (lines expected) (lines actual)

/-- Whether a setting of the update switch asks for golden files to be written. -/
def updates (setting : Option String) : Bool :=
  setting == some "1" || setting == some "true" || setting == some "yes"

variable {m : Type → Type} [Monad m] [FileSystem m]

/-- Write a golden file, creating the directories above it. -/
def write (path actual : String) : m (Except Failure Unit) := do
  if let some dir := Path.parent? path then
    if let .error e ← FileSystem.createDirAll dir then
      return .error ((Failure.ofIo e).context ("Failed to create snapshot directory " ++ dir))
  return Failure.explain ("Failed to write snapshot " ++ path) (← FileSystem.writeFile path actual.toUTF8)

/-- Check a text against its golden file, or write the file when updating. -/
def check (path actual : String) (update : Bool) : m (Except Failure Unit) := do
  if update then return ← write path actual
  let missing := "Snapshot missing at " ++ path ++ " (run with HPL_UPDATE_SNAPSHOTS=1 to create it)"
  match ← FileSystem.readFile path with
  | .error e => return .error ((Failure.ofIo e).context missing)
  | .ok bytes =>
    match String.fromUTF8? bytes with
    | none => return .error ((Failure.root "stream did not contain valid UTF-8").context missing)
    | some expected =>
      match difference expected actual with
      | none => return .ok ()
      | some (n, w, g) =>
        return .error (.root ("Snapshot mismatch at " ++ path ++ " line " ++ toString n ++ ": expected `" ++
          w ++ "`, got `" ++ g ++ "` (run with HPL_UPDATE_SNAPSHOTS=1 to update)"))

end ItemFlow.Golden
