import LiveTracks.Service
import LiveTracks.Session.Command
import LiveTracks.Settings

/-!
# Sessions

A session is a service with an outlet, driven command by command. Every step shows what the command
gave, what was logged meanwhile and the census afterwards. Commands that stand for several callers at
once are carried out for one caller after the other.
-/

namespace LiveTracks

/-- Where the layers of a session read the time. Commands only ever move a dial. -/
inductive TimeSource where
  | dial
  /-- The clock of the stack is the one of the machine. The dial is beside it, and no layer reads it. -/
  | machine (dial : Instant)
deriving DecidableEq, Repr

/-- A stack with a crew and an outlet, and what is kept for later. -/
structure Session where
  stack : Stack String
  crew : Crew
  outlet : Option (Outlet String)
  source : TimeSource := .dial
  held : List (String × List (Entry String)) := []
  heldViews : List (String × Census) := []

namespace Session

def ofSettings (settings : Settings) (processors : Nat) (policies : List Policy)
    (outlet : Option (Outlet String)) (source : TimeSource) : Session where
  stack := .ofPolicies policies
  crew := .ofSize (settings.workers processors) settings.sweepInterval
  outlet := outlet
  source := source

/-! ### Time -/

def dial (s : Session) : Instant :=
  match s.source with
  | .dial => s.stack.clock
  | .machine dial => dial

def turn (s : Session) (now : Instant) : Session :=
  match s.source with
  | .dial => { s with stack := { s.stack with clock := now } }
  | .machine _ => { s with source := .machine now }

def stepTime : Duration := ⟨Duration.nanosPerMicro⟩

/-- Lets the time of one step pass. Only the clock of the machine goes on by itself. -/
def tick (s : Session) : Session :=
  match s.source with
  | .dial => s
  | .machine _ => { s with stack := { s.stack with clock := s.stack.clock.add stepTime } }

/-! ### Parts of a session -/

def service (s : Session) (o : Outlet String) : Service (Outlet String) String :=
  ⟨s.stack, o, s.crew⟩

def withService (s : Session) (v : Service (Outlet String) String) : Session :=
  { s with stack := v.stack, crew := v.crew, outlet := some v.finisher }

def serve (s : Session)
    (work : Service (Outlet String) String → Service (Outlet String) String × Reply) :
    Session × Reply :=
  match s.outlet with
  | some o =>
    let (v, reply) := work (s.service o)
    (s.withService v, reply)
  | none => (s, .done)

/-! ### Several callers -/

/-- Makes one caller's reports on number `k`, and counts those that were accepted. -/
def registerList (k : Nat) (s : Stack String) : List (Report String) → Stack String × Nat
  | [] => (s, 0)
  | r :: reports =>
    let (s, result) := s.registerAt k r
    let (s, n) := registerList k s reports
    (s, if result.isOk then n + 1 else n)

/-- Makes all callers' reports on number `k`, and counts for each caller those that were accepted. -/
def registerLists (k : Nat) (s : Stack String) :
    List (List (Report String)) → Stack String × List Nat
  | [] => (s, [])
  | reports :: lists =>
    let (s, n) := registerList k s reports
    let (s, ns) := registerLists k s lists
    (s, n :: ns)

def writerReports (camera : String) (each writer : Nat) : List (Report String) :=
  (List.range each).map fun i => ⟨camera, Int64.ofNat (writer * each + i), ""⟩

/-- Clears a camera on number `k` again and again. -/
def clearTimes (k : Nat) (s : Stack String) (camera : String) : Nat → Stack String
  | 0 => s
  | n + 1 => clearTimes k (s.clearAt k camera) camera n

/-- Whether count and list of a camera agree after callers have reported and cleared it on number `k`.
The camera is cleared in the end, and nothing is left in the log. -/
def contend (k : Nat) (s : Stack String) (camera : String) (writers each clears : Nat) :
    Stack String × Bool :=
  let written := (registerLists k s ((List.range writers).map (writerReports camera each))).1
  let settled := clearTimes k written camera clears
  let agree := settled.count camera == (settled.getByCamera camera).length
  ({ settled.clearAt k camera with log := s.log }, agree)

/-- Sweeps the shares `p`, `p + 1` and so on of layer `k`, `left` of them. -/
def sweepParts (w : Walk) (sharing : Sharing) (s : Stack String) (k parts p : Nat) :
    Nat → Stack String × List (List (Expired String))
  | 0 => (s, [])
  | left + 1 =>
    let (s, found) := s.sweepPart k w sharing p parts
    let (s, rest) := sweepParts w sharing s k parts (p + 1) left
    (s, found :: rest)

def splitCameras (found : List (List (Expired String))) : Nat :=
  let cameras := found.map fun l => (l.map fun x => x.entry.camera).eraseDups
  (cameras.flatten.eraseDups.filter fun c => 1 < cameras.countP (·.contains c)).length

/-! ### The service -/

/-- One background run of a service: the crew is started, every worker sweeps and hands over once if
anything is waited for, and the crew is stopped. The reply is the number of tracks that came to wait in
the outlet. -/
def background (w : Walk) (sharing : Sharing) (expected : Nat)
    (v : Service (Outlet String) String) : Service (Outlet String) String × Reply :=
  let started := v.start
  let worked := if expected = 0 then started else started.rounds Outlet.finish w sharing
  let stopped := worked.stop
  (stopped, .number (stopped.finisher.waiting.length - v.finisher.waiting.length))

def receive (s : Session) : Session × Reply :=
  match s.outlet with
  | some o =>
    let (r, o) := o.receive
    ({ s with outlet := some o }, .received r)
  | none => (s, .received .closed)

def drain (s : Session) : Session × List (Expired String) :=
  match s.outlet with
  | some o =>
    let (found, o) := o.drain
    ({ s with outlet := some o }, found)
  | none => (s, [])

/-! ### Steps -/

/-- Carries out a command on number `k`. -/
def run (w : Walk) (sharing : Sharing) (s : Session) (k : Nat) : Command → Session × Reply
  | .call c =>
    let (stack, a) := s.stack.call w sharing k c
    ({ s with stack }, .answer a)
  | .hold slot camera number =>
    let kept :=
      match number with
      | some n => (s.stack.get? camera n).toList
      | none => s.stack.getByCamera camera
    ({ s with held := (slot, kept) :: s.held }, .number kept.length)
  | .held slot => (s, .kept (s.held.lookup slot))
  | .view => (s, .view (some s.stack.census))
  | .holdView slot =>
    ({ s with heldViews := (slot, s.stack.census) :: s.heldViews }, .number s.stack.census.size)
  | .heldView slot => (s, .view (s.heldViews.lookup slot))
  | .countFor camera => (s, .number (s.stack.census.countFor camera))
  | .logSummary => ({ s with stack := s.stack.logSummary }, .done)
  | .advance d =>
    let now := s.dial.add d
    (s.turn now, .number now.nanos)
  | .setDial now => (s.turn now, .number now.nanos)
  | .policy => (s, .policy ((s.stack.layer? k).map (·.policy)))
  | .sweepParts parts =>
    let (stack, found) := sweepParts w sharing s.stack k parts 0 parts
    ({ s with stack }, .parts found.flatten (splitCameras found))
  | .registerLists lists =>
    let (stack, ns) := registerLists k s.stack lists
    ({ s with stack }, .numbers ns)
  | .contend camera writers each clears =>
    let (stack, agree) := contend k s.stack camera writers each clears
    ({ s with stack }, .flag agree)
  | .sweepOnce => s.serve fun v =>
    let (v, n) := v.sweepOnce Outlet.finish w
    (v, .number n)
  | .start => s.serve fun v => (v.start, .done)
  | .stop => s.serve fun v => (v.stop, .done)
  | .isRunning => (s, .flag s.crew.isRunning)
  | .workers => (s, .number s.crew.size)
  | .release => s.serve fun v => (v.stop, .flag v.stop.crew.workers.isEmpty)
  | .background expected => s.serve (background w sharing expected)
  | .receive => s.receive
  | .drain =>
    let (s, found) := s.drain
    (s, .drained found)
  | .drainCount =>
    let (s, found) := s.drain
    (s, .number found.length)
  | .close => ({ s with outlet := s.outlet.map (·.close) }, .done)

/-- What a step shows: the reply, what was logged during it, and the census after it. -/
structure Shown where
  reply : Reply
  events : List Event
  census : Census

/-- Carries out a command on a number of the stack, or on the top if there is none given. Sweeps visit
in ascending order. -/
def step (s : Session) (number : Option Nat) (c : Command) : Session × Shown :=
  let ticked := s.tick
  let quiet := { ticked with stack := { ticked.stack with log := [] } }
  let (s', reply) := quiet.run .ascending .byName (number.getD s.stack.depth) c
  (s', ⟨reply, s'.stack.log, s'.stack.census⟩)

end Session

end LiveTracks
