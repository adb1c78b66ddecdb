import ItemFlow.Files.Basic
/-! Failures of a run as a chain of explanations: the outermost says what was being done,
each one after it why the one before failed, down to the root cause. A report prints the
outermost after `Error: ` and the rest under `Caused by:`, numbered when there are two or
more. -/
namespace ItemFlow

/-- A failure: what failed, and the causes below it, outermost first. -/
structure Failure where
  message : String
  causes : List String := []
deriving DecidableEq, Repr

namespace Failure

/-- A failure with nothing below it. -/
def root (m : String) : Failure := ⟨m, []⟩

def ofIo (e : IoError) : Failure := root e.message

/-- Explain a failure by what was being done. -/
def context (f : Failure) (m : String) : Failure := ⟨m, f.message :: f.causes⟩

/-- A number right-aligned in five places. -/
def padNumber (n : Nat) : String :=
  let s := toString n
  String.ofList (List.replicate (5 - s.length) ' ') ++ s

/-- The causes under their heading: indented by four, or numbered when there are several. -/
def causeLines (cs : List String) : String :=
  match cs with
  | [] => ""
  | [c] => "\n\nCaused by:\n    " ++ c
  | _ => "\n\nCaused by:" ++ String.join ((cs.zipIdx).map fun (c, i) => "\n" ++ padNumber i ++ ": " ++ c)

/-- The report of a failure that ends a run, with its final newline. -/
def report (f : Failure) : String := "Error: " ++ f.message ++ causeLines f.causes ++ "\n"

/-- Explain the failure of a file operation by what was being done. -/
def explain {α : Type} (m : String) : Except IoError α → Except Failure α
  | .ok a => .ok a
  | .error e => .error ((ofIo e).context m)

end Failure

end ItemFlow
