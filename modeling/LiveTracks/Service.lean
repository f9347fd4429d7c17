import LiveTracks.Crew
import LiveTracks.Finisher

/-!
# The expiry service

The service sweeps the top layer of a stack and hands what was dropped to a finisher: on demand in
one go, or by a crew of workers, each of which sweeps its own share of the cameras again and again.
-/

namespace LiveTracks

/-- A stack, the state of a finisher and the crew that works between the two. -/
structure Service (σ P : Type) where
  stack : Stack P
  finisher : σ
  crew : Crew

namespace Service

variable {σ P : Type}

def logs (v : Service σ P) (events : List Event) : Service σ P :=
  { v with stack := v.stack.logs events }

/-- Sweeps the whole top layer and hands over what was dropped: the number of tracks that were to be
handed over. -/
def sweepOnce (v : Service σ P) (f : Finisher σ P) (w : Walk) : Service σ P × Nat :=
  let (swept, found) := v.stack.sweep v.stack.depth w
  let (finisher, stack, _) := swept.handOver f v.finisher found
  ({ v with finisher, stack }, found.length)

def policy (v : Service σ P) : Policy :=
  ((v.stack.layer? v.stack.depth).map (·.policy)).getD ⟨⟨0⟩, ⟨0⟩⟩

def start (v : Service σ P) : Service σ P :=
  let (crew, events) := v.crew.start v.policy
  { v with crew }.logs events

def stop (v : Service σ P) : Service σ P :=
  let (crew, events) := v.crew.stop
  { v with crew }.logs events

/-- Worker `i` sweeps its share and hands over what it dropped, unless it has panicked before. A
panic of the finisher is the end of the worker. -/
def round (v : Service σ P) (f : Finisher σ P) (w : Walk) (sharing : Sharing) (i : Nat) :
    Service σ P :=
  match v.crew.workers[i]? with
  | some .working =>
    let (swept, found) := v.stack.sweepPart v.stack.depth w sharing i v.crew.size
    let (finisher, stack, lasted) := swept.handOver f v.finisher found
    { stack, finisher, crew := if lasted then v.crew else v.crew.lose i }
  | _ => v

def rounds (v : Service σ P) (f : Finisher σ P) (w : Walk) (sharing : Sharing) : Service σ P :=
  (List.range v.crew.workers.length).foldl (fun v i => v.round f w sharing i) v

end Service

end LiveTracks
