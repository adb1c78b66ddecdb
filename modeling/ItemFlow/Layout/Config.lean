import ItemFlow.Toml.Read
import ItemFlow.Toml.Write
import ItemFlow.Failure
/-! Settings of a layout run and their TOML form. A settings file sets any of the keys below
and may hold others, which are passed over; a file that cannot be read, is not TOML, or
gives a key a value of the wrong kind or range counts as no file, so every setting keeps
its default. Saving writes every setting, leaving out the paths that are not set. -/
namespace ItemFlow

/-- What the transfer hopper of a layout feeds. -/
inductive Destination where
  | chest
  | furnace
deriving DecidableEq, Repr

namespace Destination

/-- The name in settings files. -/
def key : Destination → String
  | .chest => "chest"
  | .furnace => "furnace"

/-- The name in reports. -/
def title : Destination → String
  | .chest => "Chest"
  | .furnace => "Furnace"

def ofKey? : String → Option Destination
  | "chest" => some .chest
  | "furnace" => some .furnace
  | _ => none

/-- A destination in a settings file: its name, or a table of the name alone whose value
is empty. -/
def ofValue? : Toml.Value → Option Destination
  | .string s => ofKey? s
  | .table [(k, .table [])] | .table [(k, .array [])] => ofKey? k
  | _ => none

end Destination

/-- The settings of a layout run. -/
structure Settings where
  ticks : UInt64 := 200
  sourceItems : UInt32 := 16
  fuelItems : UInt32 := 2
  destination : Destination := .chest
  saveDir : Option String := none
  saveName : String := "layout"
  eventsPath : Option String := none
deriving DecidableEq, Repr

namespace Settings

def natBelow (bound : Nat) : Toml.Value → Option Nat
  | .integer n => if 0 ≤ n && n < bound then some n.toNat else none
  | _ => none

def text? : Toml.Value → Option String
  | .string s => some s
  | _ => none

/-- Apply one key of a settings file; a key that is not a setting changes nothing. -/
def setKey (s : Settings) : String × Toml.Value → Option Settings
  | ("ticks", v) => (natBelow (2 ^ (64 : Nat)) v).map fun n => { s with ticks := n.toUInt64 }
  | ("source_items", v) => (natBelow (2 ^ (32 : Nat)) v).map fun n => { s with sourceItems := n.toUInt32 }
  | ("fuel_items", v) => (natBelow (2 ^ (32 : Nat)) v).map fun n => { s with fuelItems := n.toUInt32 }
  | ("destination", v) => (Destination.ofValue? v).map fun d => { s with destination := d }
  | ("save_dir", v) => (text? v).map fun p => { s with saveDir := some p }
  | ("save_name", v) => (text? v).map fun n => { s with saveName := n }
  | ("events_path", v) => (text? v).map fun p => { s with eventsPath := some p }
  | _ => some s

/-- The settings a TOML text gives, if it is one whose keys all fit. -/
def ofToml? (text : String) : Option Settings := do
  let entries ← Toml.parse? text
  entries.foldlM setKey {}

/-- The settings in a file's bytes; anything but a fitting TOML text gives the defaults. -/
def ofBytes (bytes : ByteArray) : Settings :=
  match String.fromUTF8? bytes with
  | some text => (ofToml? text).getD {}
  | none => {}

/-- The settings as a TOML text, one key per line. -/
def toToml (s : Settings) : String :=
  let line (k v : String) := k ++ " = " ++ v ++ "\n"
  line "ticks" (toString s.ticks) ++ line "source_items" (toString s.sourceItems) ++
    line "fuel_items" (toString s.fuelItems) ++ line "destination" (Toml.quote s.destination.key) ++
    (s.saveDir.map fun p => line "save_dir" (Toml.quote p)).getD "" ++
    line "save_name" (Toml.quote s.saveName) ++
    (s.eventsPath.map fun p => line "events_path" (Toml.quote p)).getD ""

variable {m : Type → Type} [Monad m] [FileSystem m]

/-- The settings in a file, or the defaults when it cannot be read. -/
def load (path : String) : m Settings := do
  match ← FileSystem.readFile path with
  | .ok bytes => return ofBytes bytes
  | .error _ => return {}

/-- Write the settings to a file, creating the directories above it. -/
def save (s : Settings) (path : String) : m (Except Failure Unit) := do
  if let some dir := Path.parent? path then
    if let .error e ← FileSystem.createDirAll dir then return .error (.ofIo e)
  match ← FileSystem.writeFile path s.toToml.toUTF8 with
  | .ok () => return .ok ()
  | .error e => return .error (.ofIo e)

end Settings

end ItemFlow
