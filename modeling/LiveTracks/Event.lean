import LiveTracks.Key
import LiveTracks.Policy
import LiveTracks.Text.Quoted

/-!
# Events

What is logged while tracks are stored, swept and handed over: each event with its level and its line
of text.
-/

namespace LiveTracks

/-- How much an event matters. -/
inductive Level where
  | debug
  | info
  | warn
deriving DecidableEq, Repr

def Level.text : Level → String
  | debug => "DEBUG"
  | info => "INFO"
  | warn => "WARN"

/-- Something that is logged. -/
inductive Event where
  | created (camera : CameraId)
  | cleared (camera : CameraId) (dropped : Nat)
  | rejected (camera : String) (fault : KeyError)
  | expired (key : Key) (reason : Reason)
  | finished (key : Key) (reason : Reason)
  | handoverFailed (key : Key) (text : String)
  | started (workers : Nat) (interval : Duration) (policy : Policy)
  | stopped
  | workerPanicked
  | summary (table : String)
deriving DecidableEq

namespace Event

def level : Event → Level
  | created _ => .debug
  | cleared _ _ => .info
  | rejected _ _ => .warn
  | expired _ _ => .debug
  | finished _ _ => .info
  | handoverFailed _ _ => .warn
  | started _ _ _ => .info
  | stopped => .info
  | workerPanicked => .warn
  | summary _ => .info

def place (k : Key) : String :=
  "track " ++ toString k.track.value.toNat ++ " on camera " ++ k.camera.text

def message : Event → String
  | created c => "Created track shard for camera " ++ c.text
  | cleared c n => "Cleared camera " ++ c.text ++ " (" ++ toString n ++ " tracks dropped)"
  | rejected c e => "Rejected track registration for camera " ++ Text.quoted c ++ ": " ++ e.message
  | expired k r => "Expired " ++ place k ++ " (" ++ r.text ++ ")"
  | finished k r => "Finished " ++ place k ++ " (" ++ r.text ++ ")"
  | handoverFailed k text => "Failed to finish " ++ place k ++ ": " ++ text
  | started n interval p =>
    "Started " ++ toString n ++ " track expiry workers (interval " ++ interval.text ++
      ", lost_ttl " ++ p.lostTtl.text ++ ", active_ttl " ++ p.activeTtl.text ++ ")"
  | stopped => "Stopped track expiry workers"
  | workerPanicked => "Track expiry worker panicked"
  | summary table => "\n\n" ++ table

def line (e : Event) : String := e.level.text ++ " " ++ e.message

end Event

end LiveTracks
