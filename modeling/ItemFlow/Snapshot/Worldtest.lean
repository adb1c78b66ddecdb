import ItemFlow.Snapshot.Golden
import ItemFlow.Layout.Run
/-! Small world tests: tick a world a number of times and record, before the first tick and
after each one, what a list of watched positions shows. The record is a report of frames,
whose canonical JSON text may be checked against a golden file. -/
namespace ItemFlow

/-- What a watched position shows: a hopper's transfer cooldown, and the units in the slots
of a container that has its own. -/
structure Probe where
  cooldown : Option Int64
  units : Option Nat
deriving DecidableEq, Repr

def Probe.at (r : Realm) (p : Pos) : Probe :=
  let b := r.blockAt p
  ⟨match b with
    | .hopper h => some h.transferCooldown
    | _ => none,
   b.inventory?.map fun inv => (r.slotsOf inv).total⟩

def Probe.toJson (p : Probe) : Json :=
  .obj [("cooldown", .opt (fun (c : Int64) => .int c.toInt) p.cooldown), ("units", .opt .nat p.units)]

/-- One recorded frame: the tick and what each watched position showed. -/
structure Frame where
  tick : Nat
  probes : List (Pos × Probe)

namespace Frame

def key (p : Pos) : String := toString p.x.toInt ++ "," ++ toString p.y.toInt ++ "," ++ toString p.z.toInt

def toJson (f : Frame) : Json :=
  .obj [("snapshot", .obj (f.probes.map fun (p, pr) => (key p, pr.toJson))), ("tick", .nat f.tick)]

end Frame

/-- A world test: its name, how many ticks to run, the watched positions, and the golden
file to check against, with whether to write it instead. -/
structure Worldtest where
  name : String
  ticks : Nat
  watch : List Pos
  golden : Option String := none
  update : Bool := false

namespace Worldtest

/-- The frame of the current realm at a tick; a position watched twice shows once. -/
def frameAt (t : Worldtest) (tick : Nat) : Act Frame := do
  let r ← get
  return ⟨tick, t.watch.eraseDups.map fun p => (p, Probe.at r p)⟩

/-- Tick `n` more times from tick `k`, recording a frame after each. -/
def frames (t : Worldtest) : Nat → Nat → Array Frame → Act (Array Frame)
  | 0, _, acc => return acc
  | n + 1, k, acc => do
    let _ ← World.tick ⟨k.toUInt64⟩
    frames t n (k + 1) (acc.push (← t.frameAt k))

/-- The report: the name and every frame. -/
def report (t : Worldtest) (fs : Array Frame) : Json :=
  .obj [("frames", .arr (fs.toList.map Frame.toJson)), ("name", .str t.name)]

/-- Record a world test on a realm, then check its report against the golden file. -/
def run {m : Type → Type} [Monad m] [FileSystem m] (t : Worldtest) (r : Realm) :
    m (Except RunError Json) := do
  match (do frames t t.ticks 1 #[← t.frameAt 0]).run' r with
  | .error o => return .error (.trapped o)
  | .ok fs =>
    let rep := t.report fs
    match t.golden with
    | none => return .ok rep
    | some path =>
      match ← Golden.check path (Json.canonical rep) t.update with
      | .ok () => return .ok rep
      | .error f => return .error (.failed f)

end Worldtest

end ItemFlow
