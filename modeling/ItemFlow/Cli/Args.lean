import ItemFlow.Text.Similarity
import ItemFlow.Overflow
/-! The command line of the layout runner: four options that each take one value, and the
help and version flags. Arguments are read left to right. An option's value is the next
argument or follows `=`; it is checked only when the next option or flag starts, or at the
end, so a later mistake can hide an earlier one. Help and version act at once. An unknown
long option is answered with the most similar known one, if any is similar enough. -/
namespace ItemFlow.Cli

/-- The options that take a value. -/
inductive Opt where
  | config
  | ticks
  | saveDir
  | events
deriving DecidableEq, Repr

namespace Opt

def long : Opt → String
  | .config => "config"
  | .ticks => "ticks"
  | .saveDir => "save-dir"
  | .events => "events"

/-- The option with its value name, as usage and errors show it. -/
def display : Opt → String
  | .config => "--config <CONFIG>"
  | .ticks => "--ticks <TICKS>"
  | .saveDir => "--save-dir <SAVE_DIR>"
  | .events => "--events <EVENTS>"

end Opt

/-- A known long name: an option, or the help or version flag. -/
inductive Known where
  | opt (o : Opt)
  | help
  | version
deriving DecidableEq, Repr

namespace Known

/-- Every long name, in the order the command declares them. -/
def all : List Known := [.opt .config, .opt .ticks, .opt .saveDir, .opt .events, .help, .version]

def long : Known → String
  | .opt o => o.long
  | .help => "help"
  | .version => "version"

def display : Known → String
  | .opt o => o.display
  | .help => "--help"
  | .version => "--version"

def ofLong? (s : String) : Option Known := all.find? (·.long == s)

end Known

/-- The values the command line gave. -/
structure Options where
  config : Option String := none
  ticks : Option UInt64 := none
  saveDir : Option String := none
  events : Option String := none
deriving DecidableEq, Repr

/-- What the command line asks for. -/
inductive Request where
  | run (o : Options)
  | help
  | version
  | refuse (text : String)
deriving DecidableEq, Repr

def helpText : String :=
  "Run a hopper layout headless\n\nUsage: hopperline [OPTIONS]\n\nOptions:\n" ++
  "      --config <CONFIG>      TOML config file (defaults to config/hopperline.toml)\n" ++
  "      --ticks <TICKS>        Number of ticks to simulate\n" ++
  "      --save-dir <SAVE_DIR>  Directory to save the final layout into\n" ++
  "      --events <EVENTS>      Write a JSONL event log of transfer ticks\n" ++
  "  -h, --help                 Print help\n" ++
  "  -V, --version              Print version\n"

def versionText : String := "hopperline 0.1.0\n"

/-- The usage line: all options folded into one mark, or the names in use. -/
def usage (used : List Known) : String :=
  "Usage: hopperline" ++
    if used.isEmpty then " [OPTIONS]" else String.join (used.map (" " ++ ·.display))

/-- An error text: the message, then the usage line if any, then the pointer to help. -/
def errorText (message : String) (usageLine : Option String) : String :=
  "error: " ++ message ++ (usageLine.map ("\n\n" ++ ·)).getD "" ++ "\n\nFor more information, try '--help'.\n"

/-- Why reading a number failed, as the number reader says it. -/
inductive NumberError where
  | empty
  | invalidDigit
  | tooLarge
deriving DecidableEq, Repr

def NumberError.text : NumberError → String
  | .empty => "cannot parse integer from empty string"
  | .invalidDigit => "invalid digit found in string"
  | .tooLarge => "number too large to fit in target type"

/-- Read decimal digits into an unsigned 64-bit number, left to right: a non-digit fails
where it stands, and so does a step past the largest number. -/
def digitsU64 (acc : Nat) : List Char → Except NumberError Nat
  | [] => .ok acc
  | c :: cs =>
    if !c.isDigit then .error .invalidDigit
    else
      let next := acc * 10 + (c.toNat - '0'.toNat)
      if next ≥ 2 ^ (64 : Nat) then .error .tooLarge else digitsU64 next cs

/-- An unsigned 64-bit number with an optional leading plus sign. -/
def parseU64 (s : String) : Except NumberError UInt64 :=
  match s.toList with
  | [] => .error .empty
  | ['+'] | ['-'] => .error .invalidDigit
  | '+' :: cs => (digitsU64 0 cs).map Nat.toUInt64
  | cs => (digitsU64 0 cs).map Nat.toUInt64

/-- The state of reading the arguments: the values so far, the names in use in the order
first used, the option waiting for its value with what it has, whether it still takes one,
and whether a `--` has ended the options. -/
structure Reader where
  options : Options := {}
  used : List Known := []
  pending : Option (Opt × List String) := none
  expecting : Bool := false
  trailing : Bool := false

namespace Reader

def has (r : Reader) (o : Opt) : Bool := r.used.contains (Known.opt o)

def store (r : Reader) (o : Opt) (v : String) : Except String Reader :=
  match o with
  | .ticks =>
    match parseU64 v with
    | .ok n => .ok { r with options := { r.options with ticks := some n } }
    | .error e => .error (errorText ("invalid value '" ++ v ++ "' for '" ++ o.display ++ "': " ++ e.text) none)
  | _ =>
    if v.isEmpty then .error (errorText ("a value is required for '" ++ o.display ++ "' but none was supplied") none)
    else .ok <| match o with
      | .config => { r with options := { r.options with config := some v } }
      | .saveDir => { r with options := { r.options with saveDir := some v } }
      | _ => { r with options := { r.options with events := some v } }

/-- Give an option its values: it needs one, may be given once, and its value must read.
The option counts as used from the moment it passes the first two checks, whether or not
its value reads; given twice, it no longer counts as used. -/
def give (r : Reader) (o : Opt) (vals : List String) : Reader × Option String :=
  match vals with
  | [] => (r, some (errorText ("a value is required for '" ++ o.display ++ "' but none was supplied") none))
  | v :: _ =>
    if r.has o then
      ({ r with used := r.used.erase (Known.opt o) }, some (errorText ("the argument '" ++ o.display ++ "' cannot be used multiple times") (some (usage []))))
    else
      let r := { r with used := r.used ++ [Known.opt o] }
      match r.store o v with
      | .ok r => (r, none)
      | .error e => (r, some e)

def settle (r : Reader) : Reader × Option String :=
  match r.pending with
  | none => (r, none)
  | some (o, vals) => { r with pending := none, expecting := false }.give o vals

/-- The error for an unknown long name, pointing to the most similar known name. -/
def unknownLong (r : Reader) (name : String) : String :=
  let best := Known.all.foldl (fun (best : Option (Float × Known)) k =>
    let c := Text.jaro name k.long
    if c > 0.7 then
      match best with
      | some (b, _) => if c ≥ b then some (c, k) else best
      | none => some (c, k)
    else best) none
  match best with
  | some (_, k) =>
    let used := if r.used.contains k then r.used else r.used ++ [k]
    errorText ("unexpected argument '--" ++ name ++ "' found\n\n  tip: a similar argument exists: '--" ++ k.long ++ "'")
      (some (usage used))
  | none => errorText ("unexpected argument '--" ++ name ++ "' found") (some (usage r.used))

/-- The error for an argument that is not an option, a flag or a value. -/
def unexpected (arg : String) : String :=
  errorText ("unexpected argument '" ++ arg ++ "' found") (some (usage []))

/-- Settle the waiting option, then act on a flag. -/
def flag (r : Reader) (k : Known) (result : Request) : Request ⊕ Reader :=
  match r.settle with
  | (_, some e) => .inl (.refuse e)
  | (r, none) =>
    match k with
    | .opt _ => .inr r
    | _ => .inl result

/-- Read one argument: a request when reading ends here, or the next state. -/
def step (r : Reader) (arg : String) : Request ⊕ Reader :=
  if !r.trailing && arg == "--" then .inr { r with trailing := true }
  else if !r.trailing && arg.startsWith "--" then
    let body := String.ofList (arg.toList.drop 2)
    let (name, value) := match body.splitOn "=" with
      | [n] => (n, none)
      | n :: rest => (n, some ("=".intercalate rest))
      | [] => (body, none)
    match Known.ofLong? name, value with
    | some (.opt o), some v =>
      match r.settle with
      | (_, some e) => .inl (.refuse e)
      | (r, none) =>
        match r.give o [v] with
        | (_, some e) => .inl (.refuse e)
        | (r, none) => .inr r
    | some (.opt o), none =>
      match r.settle with
      | (_, some e) => .inl (.refuse e)
      | (r, none) => .inr { r with pending := some (o, []), expecting := true }
    | some k, some v =>
      .inl (.refuse (errorText ("unexpected value '" ++ v ++ "' for '" ++ k.display ++
        "' found; no more were expected") (some (usage ((r.used.erase k) ++ [k])))))
    | some .help, none => r.flag .help .help
    | some .version, none => r.flag .version .version
    | none, _ => .inl (.refuse (r.settle.1.unknownLong name))
  else if !r.trailing && arg.startsWith "-" && arg.length > 1 then
    match arg.toList.drop 1 with
    | 'h' :: _ => r.flag .help .help
    | 'V' :: _ => r.flag .version .version
    | c :: _ => .inl (.refuse (errorText ("unexpected argument '-" ++ c.toString ++ "' found") (some (usage []))))
    | [] => .inl (.refuse (unexpected arg))
  else if !r.trailing && r.expecting then
    match r.pending with
    | some (o, vals) => .inr { r with pending := some (o, vals ++ [arg]), expecting := false }
    | none => .inl (.refuse (unexpected arg))
  else .inl (.refuse (unexpected arg))

def readAll (r : Reader) : List String → Request
  | [] =>
    match r.settle with
    | (_, some e) => .refuse e
    | (r, none) => .run r.options
  | a :: rest =>
    match r.step a with
    | .inl req => req
    | .inr r => r.readAll rest

end Reader

def Request.ofArgs (args : List String) : Request := ({} : Reader).readAll args

end ItemFlow.Cli
