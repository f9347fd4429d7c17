import LiveTracks.Census
import LiveTracks.Event
import LiveTracks.Stack.Layer

/-!
# Stacks

A stack is a store of entries with layers of expiry above it. The store is number 0 and the layers
are numbered upwards from 1; what is called on a number takes in everything below it, and callers
that name no number mean the top. A report is written to the store first and then noted upwards, layer
by layer; a removal drops the rows first, from the called number downwards, and the entry last. So a
row may for a moment have no entry, but an entry without a row is one that a report is still being
made of, or one that a removal is about to drop.

A report may be armed. It is made, on the top, right after the next removal or clearing that comes
down through a layer to the store.
-/

namespace LiveTracks

/-- What a caller reports of a track. -/
structure Report (P : Type) where
  camera : String
  number : Int64
  payload : P
deriving DecidableEq

/-- A store under layers, the clock that all layers share, the armed report and the log. -/
structure Stack (P : Type) where
  base : Store P
  layers : List Layer
  clock : Instant
  armed : Option (Report P)
  log : List Event

namespace Stack

variable {P : Type}

def ofPolicies (policies : List Policy) : Stack P where
  base := ∅
  layers := policies.map fun policy => ⟨policy, ∅⟩
  clock := ⟨0⟩
  armed := none
  log := []

def depth (s : Stack P) : Nat := s.layers.length

/-- The layer of a number. The store, number 0, is no layer. -/
def layer? (s : Stack P) : Nat → Option Layer
  | 0 => none
  | k + 1 => s.layers[k]?

def logs (s : Stack P) (events : List Event) : Stack P := { s with log := s.log ++ events }

/-! ### Reports -/

/-- Notes a report in the lowest `k` layers, upwards, up to the first that fails. -/
def noteBelow (camera : String) (number : Int64) (now : Instant) :
    Nat → List Layer → List Layer × Except KeyError Unit
  | 0, layers => (layers, .ok ())
  | _ + 1, [] => ([], .ok ())
  | k + 1, l :: layers =>
    match l.note camera number now with
    | .error e => (l :: layers, .error e)
    | .ok l' =>
      let (layers', result) := noteBelow camera number now k layers
      (l' :: layers', result)

def creation (base : Store P) (camera : String) : List Event :=
  match CameraId.ofString? camera with
  | some c => if base.knows c then [] else [.created c]
  | none => []

/-- Makes a report on number `k`. -/
def registerAt (s : Stack P) (k : Nat) (r : Report P) : Stack P × Except KeyError Unit :=
  match s.base.register r.camera r.number r.payload with
  | .error e => (s.logs [.rejected r.camera e], .error e)
  | .ok base =>
    let (layers, result) := noteBelow r.camera r.number s.clock k s.layers
    ({ s with base, layers }.logs (creation s.base r.camera), result)

def register (s : Stack P) (r : Report P) : Stack P × Except KeyError Unit :=
  s.registerAt s.depth r

/-! ### Removals -/

def fire (s : Stack P) : Stack P :=
  match s.armed with
  | some r => ({ s with armed := none }.register r).1
  | none => s

/-- Changes the lowest `k` layers. -/
def changeBelow (k : Nat) (f : Layer → Layer) (layers : List Layer) : List Layer :=
  (layers.take k).map f ++ layers.drop k

/-- Makes the armed report after a call on number `k`. A call on the store itself comes down through
no layer. -/
def fireAbove (s : Stack P) (k : Nat) : Stack P := if k = 0 then s else s.fire

/-- Drops the track that a pair names on number `k`. -/
def removeAt (s : Stack P) (k : Nat) (camera : String) (number : Int64) : Stack P :=
  { s with
    layers := changeBelow k (·.drop camera number) s.layers
    base := s.base.remove camera number }.fireAbove k

def clearing (camera : String) (dropped : Option Nat) : List Event :=
  match CameraId.ofString? camera, dropped with
  | some c, some n => [.cleared c n]
  | _, _ => []

/-- Forgets the camera that a text names on number `k`. -/
def clearAt (s : Stack P) (k : Nat) (camera : String) : Stack P :=
  let (base, dropped) := s.base.clear camera
  ({ s with layers := changeBelow k (·.clear camera) s.layers, base }.logs
    (clearing camera dropped)).fireAbove k

/-! ### Answers -/

def get? (s : Stack P) (camera : String) (number : Int64) : Option (Entry P) :=
  s.base.get? camera number

def getByCamera (s : Stack P) (camera : String) : List (Entry P) := s.base.getByCamera camera

def count (s : Stack P) (camera : String) : Nat := s.base.count camera

def census (s : Stack P) : Census := s.base.census

def logSummary (s : Stack P) : Stack P :=
  s.logs (s.census.summary?.toList.map .summary)

end Stack

end LiveTracks
