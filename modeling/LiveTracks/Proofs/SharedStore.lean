import LiveTracks.Proofs.FlatStore

/-!
# A store that many callers share

Callers that share a store take one lock at a time: the lock of all shards, to find the shard of a camera,
to make one or to take it out, and the lock of one shard, to do what they came for. So a shard has a number
by which callers hold on to it, also once it no longer serves its camera. A `Caller` is a call with the
lock that it takes next (`Turn`), and a `Crowd` is a shared store with all calls that have been made on it,
each at its own point. The shards themselves are those of `Store`.
-/

namespace LiveTracks

variable {P : Type}

/-- All shards ever made, by number, and the number of the one that serves a camera. -/
structure SharedStore (P : Type) where
  shards : List (Shard P)
  serving : Std.ExtTreeMap CameraId Nat

/-- The lock that a call takes next. -/
inductive Turn (P : Type) where
  /-- The lock of all shards, to find the one of the camera; a clearing takes it out. -/
  | look
  /-- The same lock once more, to make a shard if the camera still has none. -/
  | make (c : CameraId)
  | enter (shard : Nat)
  /-- The locks of the shards that are still to be counted. -/
  | tally (rest : List (CameraId × Nat)) (found : List (String × Nat))
  | done (a : Answer P)

structure Caller (P : Type) where
  call : Call P
  turn : Turn P

def Call.camera? : Call P → Option String
  | .register r => some r.camera
  | .get camera _ | .getByCamera camera | .remove camera _ | .clear camera | .count camera =>
    some camera
  | .census | .sweep | .sweepPart _ _ | .setClock _ | .arm _ => none

/-- What a call does in the shard of its camera; a retired shard refuses a report. -/
def Shard.serve (s : Shard P) : Call P → Option (Shard P × Answer P)
  | .register r =>
    match Key.ofRaw r.camera r.number with
    | .ok k => (s.insert? (k.entry r.payload)).map (·, .done)
    | .error e => some (s, .refused e)
  | .get _ number => some (s, .entry ((TrackId.ofRaw? number).bind s.get?))
  | .getByCamera _ => some (s, .entries s.entries)
  | .remove _ number => some (((TrackId.ofRaw? number).map s.erase).getD s, .done)
  | .clear _ => some (s.retire.1, .done)
  | .count _ => some (s, .number s.size)
  | .census | .sweep | .sweepPart _ _ | .setClock _ | .arm _ => some (s, .done)

namespace SharedStore

def empty : SharedStore P := ⟨[], ∅⟩

def shard? (s : SharedStore P) (camera : String) : Option Nat :=
  (CameraId.ofString? camera).bind (s.serving[·]?)

/-- The turn of a call that has looked for the shard of a camera. -/
def reach (s : SharedStore P) (camera : String) (absent : Turn P) : Turn P :=
  ((s.shard? camera).map .enter).getD absent

def detach (s : SharedStore P) (camera : String) : SharedStore P :=
  match CameraId.ofString? camera with
  | some c => { s with serving := s.serving.erase c }
  | none => s

/-- A pair that names no track is found out before any lock is taken. -/
def look (s : SharedStore P) : Call P → SharedStore P × Turn P
  | .register r =>
    match Key.ofRaw r.camera r.number with
    | .ok k => (s, s.reach r.camera (.make k.camera))
    | .error e => (s, .done (.refused e))
  | .get camera number =>
    match TrackId.ofRaw? number with
    | some _ => (s, s.reach camera (.done (.entry none)))
    | none => (s, .done (.entry none))
  | .getByCamera camera => (s, s.reach camera (.done (.entries [])))
  | .remove camera number =>
    match TrackId.ofRaw? number with
    | some _ => (s, s.reach camera (.done .done))
    | none => (s, .done .done)
  | .clear camera => (s.detach camera, s.reach camera (.done .done))
  | .count camera => (s, s.reach camera (.done (.number 0)))
  | .census => (s, .tally s.serving.toList [])
  | .sweep | .sweepPart _ _ => (s, .done (.expired []))
  | .setClock _ | .arm _ => (s, .done .done)

def make (s : SharedStore P) (c : CameraId) : SharedStore P × Turn P :=
  match s.serving[c]? with
  | some i => (s, .enter i)
  | none => (⟨s.shards ++ [.fresh], s.serving.insert c s.shards.length⟩, .enter s.shards.length)

def advance (s : SharedStore P) (q : Call P) : Turn P → SharedStore P × Turn P
  | .look => s.look q
  | .make c => s.make c
  | .enter i =>
    match s.shards[i]? with
    | none => (s, .look)
    | some shard =>
      match shard.serve q with
      | some (shard', a) => ({ s with shards := s.shards.set i shard' }, .done a)
      | none => (s, .look)
  | .tally [] found => (s, .done (.census (.ofList found)))
  | .tally ((c, i) :: rest) found =>
    let n := (s.shards[i]?).bind (·.liveSize?)
    (s, .tally rest (found ++ n.toList.map (c.text, ·)))
  | .done a => (s, .done a)

end SharedStore

structure Crowd (P : Type) where
  store : SharedStore P
  callers : List (Caller P)

namespace Crowd

/-- What can happen next: a call is made, or one of the calls takes its next lock. -/
inductive Move (P : Type) where
  | ask (q : Call P)
  | go (i : Nat)

def empty : Crowd P := ⟨.empty, []⟩

def step (t : Crowd P) : Move P → Crowd P
  | .ask q => { t with callers := t.callers ++ [⟨q, .look⟩] }
  | .go i =>
    match t.callers[i]? with
    | none => t
    | some c =>
      ⟨(t.store.advance c.call c.turn).1,
        t.callers.set i { c with turn := (t.store.advance c.call c.turn).2 }⟩

def run (t : Crowd P) (moves : List (Move P)) : Crowd P := moves.foldl step t

end Crowd

end LiveTracks
