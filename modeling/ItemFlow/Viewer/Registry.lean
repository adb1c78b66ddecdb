/-! Viewer registries: the viewers watching one container, one registration per viewer id,
kept in id order. A registration does not keep its viewer alive; registrations of dropped
viewers stay until a notification prunes them, but never count as live. -/
namespace ItemFlow

/-- A viewer: its id and which incarnation under that id it is. -/
structure Viewer where
  id : UInt64
  serial : Nat
deriving DecidableEq, Repr

/-- The registrations of one container, sorted by id with one viewer per id. -/
structure Registry where
  entries : List Viewer := []
deriving DecidableEq, Repr

namespace Registry

/-- Register a viewer, replacing a registration under the same id. -/
def addEntry (v : Viewer) : List Viewer → List Viewer
  | [] => [v]
  | w :: ws =>
    if v.id < w.id then v :: w :: ws
    else if v.id == w.id then v :: ws
    else w :: addEntry v ws

def add (r : Registry) (v : Viewer) : Registry := ⟨addEntry v r.entries⟩

/-- Unregister an id; reports whether a registration, live or not, was there. -/
def remove (r : Registry) (id : UInt64) : Registry × Bool :=
  (⟨r.entries.filter (·.id != id)⟩, r.entries.any (·.id == id))

/-- Drop every registration. -/
def clear (_ : Registry) : Registry := ⟨[]⟩

/-- The registrations whose viewer is alive, in id order. -/
def live (alive : Viewer → Bool) (r : Registry) : List Viewer := r.entries.filter alive

def len (alive : Viewer → Bool) (r : Registry) : Nat := (r.live alive).length

/-- Whether an id is registered with a live viewer. -/
def contains (alive : Viewer → Bool) (r : Registry) (id : UInt64) : Bool :=
  r.entries.any fun v => v.id == id && alive v

/-- Deliver a notification: the live viewers receive it in id order, and the registrations
of dead viewers are pruned. -/
def notify (alive : Viewer → Bool) (r : Registry) : Registry × List Viewer :=
  (⟨r.live alive⟩, r.live alive)

end Registry

end ItemFlow
