import LiveTracks.Finisher.Outlet
import LiveTracks.Stack.Call

/-!
# Commands of a session
-/

namespace LiveTracks

/-- What a session is asked to do. -/
inductive Command where
  | call (c : Call String)
  | hold (slot camera : String) (number : Option Int64)
  | held (slot : String)
  | view
  | holdView (slot : String)
  | heldView (slot : String)
  | countFor (camera : String)
  | logSummary
  | advance (d : Duration)
  | setDial (now : Instant)
  | policy
  | sweepParts (parts : Nat)
  | registerLists (lists : List (List (Report String)))
  /-- Has callers report tracks of a camera and clear it, compares the count of what is left with its
  list and clears the camera. Nothing of this is logged. -/
  | contend (camera : String) (writers each clears : Nat)
  | sweepOnce
  | start
  | stop
  | isRunning
  | workers
  | release
  /-- Starts the crew, waits until so many tracks have been handed over, and stops the crew. -/
  | background (expected : Nat)
  | receive
  | drain
  | drainCount
  | close
deriving DecidableEq

/-- What a command gives. -/
inductive Reply where
  | answer (a : Answer String)
  | done
  | number (n : Nat)
  | numbers (l : List Nat)
  | flag (b : Bool)
  | kept (l : Option (List (Entry String)))
  | view (c : Option Census)
  | policy (p : Option Policy)
  /-- What several sweepers dropped, and how many cameras more than one of them reported. -/
  | parts (l : List (Expired String)) (split : Nat)
  | drained (l : List (Expired String))
  | received (r : Reception (Expired String))

end LiveTracks
