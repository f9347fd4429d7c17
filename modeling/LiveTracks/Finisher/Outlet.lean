import LiveTracks.Finisher
import LiveTracks.Finisher.Queue

/-!
# Outlets

The finishers at hand: a bounded queue to a consumer downstream, a note in the log, and a recorder
that keeps every call and then does as it is told.
-/

namespace LiveTracks

/-- What a recorder does once it has kept a call. -/
inductive Response (P : Type) where
  | accept
  | refuse (text : String)
  | panic
  | reregister (payload : P → P)

/-- A finisher together with its state. -/
inductive Outlet (P : Type) where
  | queue (q : Queue (Expired P))
  | note
  | recorder (response : Response P) (calls : List (Expired P))

namespace Outlet

variable {P : Type}

def refusal (k : Key) : SendError → String
  | .full => "finished-track queue full, dropped " ++ Event.place k
  | .closed => "finished-track queue closed"

def respond (response : Response P) (x : Expired P) : Handling P :=
  match response with
  | .accept => { outcome := .accepted }
  | .refuse text => { outcome := .refused text }
  | .panic => { outcome := .panicked }
  | .reregister payload =>
    { outcome := .accepted
      reports :=
        [⟨x.entry.camera.text, x.entry.track.value.toInt64, payload x.entry.payload⟩] }

def finish : Finisher (Outlet P) P
  | .queue q, x =>
    match q.send x with
    | .ok q' => (.queue q', { outcome := .accepted })
    | .error e => (.queue q, { outcome := .refused (refusal x.entry.key e) })
  | .note, x => (.note, { outcome := .accepted, events := [.finished x.entry.key x.reason] })
  | .recorder response calls, x => (.recorder response (calls ++ [x]), respond response x)

/-- Takes the next track out of an outlet. Only a queue has a receiver. -/
def receive : Outlet P → Reception (Expired P) × Outlet P
  | .queue q =>
    let (r, q') := q.receive
    (r, .queue q')
  | o => (.closed, o)

def waiting : Outlet P → List (Expired P)
  | .queue q => q.items
  | .note => []
  | .recorder _ calls => calls

def drain (o : Outlet P) : List (Expired P) × Outlet P :=
  match o with
  | .queue q => (q.items, .queue q.drain.2)
  | .note => ([], .note)
  | .recorder response calls => (calls, .recorder response [])

def close : Outlet P → Outlet P
  | .queue q => .queue q.close
  | o => o

end Outlet

end LiveTracks
