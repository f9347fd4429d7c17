import LiveTracks.Stack.Sweep

/-!
# Finishers

A finisher takes over the tracks that a sweep dropped, one call for each. A call may fail, it may
make reports of its own on the top of the stack, and it may break off in a panic, which ends the
handing over. A finisher is a function of its own state and the track, so that nothing but its
reports touches the stack.
-/

namespace LiveTracks

/-- How a call of a finisher ends. -/
inductive Outcome where
  | accepted
  | refused (text : String)
  | panicked
deriving DecidableEq

/-- What one call of a finisher does. -/
structure Handling (P : Type) where
  outcome : Outcome
  reports : List (Report P) := []
  events : List Event := []

/-- A finisher with states in `σ`. -/
abbrev Finisher (σ P : Type) := σ → Expired P → σ × Handling P

namespace Stack

variable {σ P : Type}

def registerAll (s : Stack P) (reports : List (Report P)) : Stack P :=
  reports.foldl (fun s r => (s.register r).1) s

def absorb (s : Stack P) (h : Handling P) : Stack P :=
  (s.registerAll h.reports).logs h.events

/-- Hands tracks to a finisher, one after the other. A refusal is logged and does not stop the
handing over; a panic does, and the answer is then `false`. -/
def handOver (f : Finisher σ P) : σ → Stack P → List (Expired P) → σ × Stack P × Bool
  | state, s, [] => (state, s, true)
  | state, s, x :: rest =>
    let (state', h) := f state x
    let s' := s.absorb h
    match h.outcome with
    | .accepted => handOver f state' s' rest
    | .refused text => handOver f state' (s'.logs [.handoverFailed x.entry.key text]) rest
    | .panicked => (state', s', false)

end Stack

end LiveTracks
