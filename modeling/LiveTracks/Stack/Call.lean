import LiveTracks.Stack.Sweep

/-!
# Calls

Everything that callers ask of a stack as data, with its answer, so that what holds after any number
of calls can be said at all.
-/

namespace LiveTracks

/-- What is asked of one number of a stack. -/
inductive Call (P : Type) where
  | register (report : Report P)
  | get (camera : String) (number : Int64)
  | getByCamera (camera : String)
  | remove (camera : String) (number : Int64)
  | clear (camera : String)
  | count (camera : String)
  | census
  | sweep
  | sweepPart (part parts : Nat)
  | setClock (now : Instant)
  | arm (report : Report P)
deriving DecidableEq

/-- What a call gives. -/
inductive Answer (P : Type) where
  | done
  | refused (fault : KeyError)
  | entry (e : Option (Entry P))
  | entries (l : List (Entry P))
  | number (n : Nat)
  | census (c : Census)
  | expired (l : List (Expired P))

namespace Stack

variable {P : Type}

/-- Makes a call on number `k`. Only a sweep looks at the walk and the sharing. -/
def call (s : Stack P) (w : Walk) (sharing : Sharing) (k : Nat) :
    Call P → Stack P × Answer P
  | .register r =>
    match s.registerAt k r with
    | (s, .ok ()) => (s, .done)
    | (s, .error e) => (s, .refused e)
  | .get camera number => (s, .entry (s.get? camera number))
  | .getByCamera camera => (s, .entries (s.getByCamera camera))
  | .remove camera number => (s.removeAt k camera number, .done)
  | .clear camera => (s.clearAt k camera, .done)
  | .count camera => (s, .number (s.count camera))
  | .census => (s, .census s.census)
  | .sweep =>
    let (s, found) := s.sweep k w
    (s, .expired found)
  | .sweepPart part parts =>
    let (s, found) := s.sweepPart k w sharing part parts
    (s, .expired found)
  | .setClock now => ({ s with clock := now }, .done)
  | .arm r => ({ s with armed := some r }, .done)

end Stack

end LiveTracks
