import ItemFlow.Cli.Args
import ItemFlow.Layout.Run
/-! A run of the command: read the arguments, load the settings file, let the options
override it, run the layout and print its totals. Help and version print to standard
output; a refused command line prints to standard error with status 2, a failed run its
report with status 1. -/
namespace ItemFlow.Cli

/-- What a run of the command prints, and its exit status. -/
structure Outcome where
  status : UInt32
  stdout : String := ""
  stderr : String := ""
deriving DecidableEq, Repr

/-- The settings file read when none is named. -/
def defaultConfigPath : String := "config/hopperline.toml"

def reportLine (r : RunReport) : String :=
  "ticks=" ++ toString r.ticks ++ " transfers=" ++ toString r.transfers ++ " blocked=" ++
    toString r.blocked ++ " source_left=" ++ toString r.sourceLeft ++ " delivered=" ++
    toString r.delivered ++ "\n"

/-- The settings of a run: the file's, with the options given on the command line. -/
def settingsFor {m : Type → Type} [Monad m] [FileSystem m] (o : Options) : m Settings := do
  let s ← Settings.load (o.config.getD defaultConfigPath)
  return { s with ticks := o.ticks.getD s.ticks, saveDir := o.saveDir <|> s.saveDir,
                  eventsPath := o.events <|> s.eventsPath }

def run {m : Type → Type} [Monad m] [FileSystem m] (args : List String) : m Outcome := do
  match Request.ofArgs args with
  | .help => return ⟨0, helpText, ""⟩
  | .version => return ⟨0, versionText, ""⟩
  | .refuse text => return ⟨2, "", text⟩
  | .run o =>
    match ← Layout.run (← settingsFor o) with
    | .ok rep => return ⟨0, reportLine rep, ""⟩
    | .error (.failed f) => return ⟨1, "", f.report⟩
    | .error (.trapped t) => return ⟨101, "", "thread 'main' panicked:\n" ++ t.message ++ "\n"⟩

end ItemFlow.Cli
