import LiveTracks.Event

/-!
# Crews

A crew is a fixed number of workers that are started together and stopped together. A worker that
panics is lost to the crew until it is stopped; the next start takes on all workers anew.
-/

namespace LiveTracks

/-- A worker that has been started and not yet been waited for. -/
inductive Worker where
  | working
  | panicked
deriving DecidableEq, Repr

/-- The workers of one start. -/
structure Crew where
  size : Nat
  interval : Duration
  holding : Bool
  workers : List Worker

namespace Crew

def ofSize (size : Nat) (interval : Duration) : Crew := ⟨size, interval, false, []⟩

def isRunning (c : Crew) : Bool := c.holding

/-- Takes on all workers, and what is logged of it. A crew that is running stays as it is. -/
def start (c : Crew) (policy : Policy) : Crew × List Event :=
  if c.isRunning then (c, [])
  else
    ({ c with holding := true, workers := c.workers ++ List.replicate c.size .working },
      [.started c.size c.interval policy])

def farewell : Worker → List Event
  | .working => []
  | .panicked => [.workerPanicked]

/-- Lets go of all workers and waits for them, and what is logged of it. A crew that is not running
stays as it is. -/
def stop (c : Crew) : Crew × List Event :=
  if c.isRunning then
    ({ c with holding := false, workers := [] }, c.workers.flatMap farewell ++ [.stopped])
  else (c, [])

/-- Worker `i` has panicked. -/
def lose (c : Crew) (i : Nat) : Crew := { c with workers := c.workers.set i .panicked }

end Crew

end LiveTracks
