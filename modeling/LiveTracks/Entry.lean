import LiveTracks.Key

/-!
# Entries

The latest report of one track, together with the key that it was reported under.
-/

namespace LiveTracks

/-- What was last reported of a track. -/
structure Entry (P : Type) where
  camera : CameraId
  track : TrackId
  payload : P
deriving DecidableEq

def Entry.key {P : Type} (e : Entry P) : Key := ⟨e.camera, e.track⟩

def Key.entry {P : Type} (k : Key) (payload : P) : Entry P := ⟨k.camera, k.track, payload⟩

@[simp] theorem Key.key_entry {P : Type} (k : Key) (payload : P) : (k.entry payload).key = k := rfl

end LiveTracks
