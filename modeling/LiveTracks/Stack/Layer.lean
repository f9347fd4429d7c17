import LiveTracks.Policy
import LiveTracks.Store.Raw

/-!
# Layers

A layer ages the tracks of whatever lies below it. It keeps a row for every track reported through
it, with the first and the last such report, in a store of its own; the entries themselves stay
below.
-/

namespace LiveTracks

/-- An expiry policy and the lifetimes of the tracks that it applies to. -/
structure Layer where
  policy : Policy
  rows : Store Lifetime

namespace Layer

def lifetime? (l : Layer) (camera : String) (number : Int64) : Option Lifetime :=
  (l.rows.get? camera number).map (·.payload)

/-- Notes a report: the first one of a track begins its lifetime, any further one extends it. -/
def note (l : Layer) (camera : String) (number : Int64) (now : Instant) :
    Except KeyError Layer :=
  let firstSeen := ((l.lifetime? camera number).map (·.firstSeen)).getD now
  (l.rows.register camera number ⟨firstSeen, now⟩).map fun rows => { l with rows }

def drop (l : Layer) (camera : String) (number : Int64) : Layer :=
  { l with rows := l.rows.remove camera number }

def clear (l : Layer) (camera : String) : Layer :=
  { l with rows := (l.rows.clear camera).1 }

@[simp] theorem policy_drop (l : Layer) (camera : String) (number : Int64) :
    (l.drop camera number).policy = l.policy := rfl

@[simp] theorem policy_clear (l : Layer) (camera : String) : (l.clear camera).policy = l.policy :=
  rfl

end Layer

end LiveTracks
