import Mathlib.Data.Nat.Init
import Mathlib.Logic.Relation
import LiveTracks.Proofs.Run

/-!
# Calls under way at the same time

A call on a stack is made of single accesses to the store and to the rows of the layers, and between
two of them other calls may make theirs. A `Stage` is a call that is under way, `advance` makes its next
access, and a `Traffic` is a stack with all calls that have been started on it. A call that nobody
disturbs comes to the same end as the whole call made at once (`Alone.register`, `Alone.remove`,
`Alone.clear`, `Alone.sweep`). Calls that only read the store are left out, since nothing depends on
them.
-/

namespace LiveTracks

variable {P : Type}

inductive Target where
  | track (camera : String) (number : Int64)
  | all (camera : String)

namespace Target

def covers : Target → Key → Bool
  | track camera number, key => key.isNamed camera number
  | all camera, key => decide (camera = key.camera.text)

def dropRows : Target → Layer → Layer
  | track camera number, l => l.drop camera number
  | all camera, l => l.clear camera

def dropEntries (s : Stack P) : Target → Stack P
  | track camera number => s.removeAt 0 camera number
  | all camera => s.clearAt 0 camera

end Target

/-- What is asked of a number of a stack. A sweep also says which cameras are to be swept. -/
inductive Request (P : Type) where
  | register (r : Report P)
  | remove (camera : String) (number : Int64)
  | clear (camera : String)
  | sweep (w : Walk) (mine : CameraId → Bool)

/-- What a sweep remembers from camera to camera. -/
structure Round (P : Type) where
  number : Nat
  walk : Walk
  policy : Policy
  now : Instant
  cameras : List CameraId
  found : List (Expired P)

/-- A call under way, named after the access that it makes next. -/
inductive Stage (P : Type) where
  | writeEntry (k : Nat) (r : Report P)
  /-- A report that `i` out of `k` layers have noted reads the clock, then the row of the next layer,
  and then writes this row. -/
  | readClock (i k : Nat) (r : Report P)
  | readRow (i k : Nat) (r : Report P) (now : Instant)
  | writeRow (i k : Nat) (r : Report P) (now firstSeen : Instant)
  /-- A removal drops the rows of the target in layer `i`, and the entries if `i` is 0. -/
  | drop (i : Nat) (t : Target) (rest : Stage P)
  | log (e : Event) (rest : Stage P)
  /-- A sweep reads the clock, then the cameras of its layer. -/
  | begin (k : Nat) (w : Walk) (mine : CameraId → Bool)
  | list (k : Nat) (w : Walk) (mine : CameraId → Bool) (now : Instant)
  /-- A sweep reads the rows of its next camera. -/
  | next (round : Round P)
  /-- A sweep reads the next row once more, and then the entry if the row has expired. -/
  | visit (round : Round P) (c : CameraId) (rows : List (Entry Lifetime))
  | fetch (round : Round P) (c : CameraId) (rows : List (Entry Lifetime)) (track : TrackId)
    (number : Int64) (reason : Reason)
  | done (a : Answer P)

namespace Stage

def ofRequest (k : Nat) : Request P → Stage P
  | .register r => .writeEntry k r
  | .remove camera number => .drop k (.track camera number) (.done .done)
  | .clear camera => .drop k (.all camera) (.done .done)
  | .sweep w mine => .begin k w mine

def above (i k : Nat) (r : Report P) : Stage P := if i < k then .readClock i k r else .done .done

def isDone : Stage P → Bool
  | .done _ => true
  | _ => false

def advance (s : Stack P) : Stage P → Stack P × Stage P
  | .writeEntry k r =>
    match s.registerAt 0 r with
    | (s', .ok ()) => (s', .above 0 k r)
    | (s', .error e) => (s', .done (.refused e))
  | .readClock i k r => (s, .readRow i k r s.clock)
  | .readRow i k r now =>
    let life := (s.layer? (i + 1)).bind (·.lifetime? r.camera r.number)
    (s, .writeRow i k r now ((life.map (·.firstSeen)).getD now))
  | .writeRow i k r now firstSeen =>
    match s.layers[i]? with
    | none => (s, .above (i + 1) k r)
    | some l =>
      match l.rows.register r.camera r.number ⟨firstSeen, now⟩ with
      | .ok rows => ({ s with layers := s.layers.set i { l with rows } }, .above (i + 1) k r)
      | .error e => (s, .done (.refused e))
  | .drop (i + 1) t rest => ({ s with layers := s.layers.modify i t.dropRows }, .drop i t rest)
  | .drop 0 t rest => (t.dropEntries s, rest)
  | .log e rest => (s.logs [e], rest)
  | .begin k w mine => (s, .list k w mine s.clock)
  | .list k w mine now =>
    match s.layer? k with
    | none => (s, .done (.expired []))
    | some l => (s, .next ⟨k, w, l.policy, now, (w.cameras l.rows.cameras).filter mine, []⟩)
  | .next round =>
    match round.cameras with
    | [] => (s, .done (.expired round.found))
    | c :: cameras =>
      let rows := ((s.layer? round.number).map (·.rows.entriesOf c)).getD []
      (s, .visit { round with cameras } c (round.walk.rows c rows))
  | .visit round _ [] => (s, .next round)
  | .visit round c (row :: rows) =>
    match row.track.toRaw? with
    | none => (s, .visit round c rows)
    | some number =>
      match ((s.layer? round.number).bind (·.lifetime? c.text number)).bind
          (round.policy.evaluate · round.now) with
      | none => (s, .visit round c rows)
      | some reason => (s, .fetch round c rows row.track number reason)
  | .fetch round c rows track number reason =>
    let target := Target.track c.text number
    match s.get? c.text number with
    | none => (s, .drop round.number target (.visit round c rows))
    | some entry =>
      let round' := { round with found := round.found ++ [⟨entry, reason⟩] }
      (s, .drop round.number target (.log (.expired ⟨c, track⟩ reason) (.visit round' c rows)))
  | .done a => (s, .done a)

end Stage

/-- A stack and the calls that have been started on it, finished ones included. -/
structure Traffic (P : Type) where
  stack : Stack P
  calls : List (Stage P)

/-- What can happen next: the clock is set, a call is started on a number, or one of the calls makes its
next access. -/
inductive Act (P : Type) where
  | setClock (now : Instant)
  | start (k : Nat) (q : Request P)
  | go (i : Nat)

def Act.isOn (n : Nat) : Act P → Bool
  | .start k _ => k == n
  | _ => true

namespace Traffic

def ofPolicies (policies : List Policy) : Traffic P := ⟨.ofPolicies policies, []⟩

def step (t : Traffic P) : Act P → Traffic P
  | .setClock now => { t with stack := { t.stack with clock := now } }
  | .start k q => { t with calls := t.calls ++ [.ofRequest k q] }
  | .go i =>
    match t.calls[i]? with
    | none => t
    | some c => ⟨(c.advance t.stack).1, t.calls.set i (c.advance t.stack).2⟩

def run (t : Traffic P) (acts : List (Act P)) : Traffic P := acts.foldl step t

end Traffic

/-! ### Calls that are alone -/

/-- A call that nobody disturbs gets from one point to another. -/
def Alone (a b : Stack P × Stage P) : Prop :=
  Relation.ReflTransGen (fun a b => a.2.advance a.1 = b) a b

namespace Alone

theorem refl (a : Stack P × Stage P) : Alone a a := Relation.ReflTransGen.refl

theorem head {a b c : Stack P × Stage P} (h : a.2.advance a.1 = b) (hc : Alone b c) : Alone a c :=
  Relation.ReflTransGen.head h hc

theorem trans {a b c : Stack P × Stage P} (h : Alone a b) (h' : Alone b c) : Alone a c :=
  Relation.ReflTransGen.trans h h'

end Alone

namespace Stack

theorem changeBelow_succ_of_some {i : Nat} {f : Layer → Layer} {layers : List Layer} {l : Layer}
    (h : layers[i]? = some l) :
    changeBelow (i + 1) f layers = (changeBelow i f layers).set i (f l) := by
  obtain ⟨hi, rfl⟩ := List.getElem?_eq_some_iff.1 h
  apply List.ext_getElem?
  intro n
  simp only [List.getElem?_set, getElem?_changeBelow, length_changeBelow]
  by_cases hn : i = n
  · subst hn
    simp [hi]
  · by_cases hlt : n < i
    · have hlt' : n < i + 1 := by omega
      simp [hn, hlt, hlt']
    · have hlt' : ¬ n < i + 1 := by omega
      simp [hn, hlt, hlt']

theorem changeBelow_succ_of_none {i : Nat} {f : Layer → Layer} {layers : List Layer}
    (h : layers[i]? = none) : changeBelow (i + 1) f layers = changeBelow i f layers := by
  have hi := List.getElem?_eq_none_iff.1 h
  simp only [changeBelow, List.take_of_length_le hi,
    List.take_of_length_le (Nat.le_succ_of_le hi), List.drop_of_length_le hi,
    List.drop_of_length_le (Nat.le_succ_of_le hi)]

theorem changeBelow_modify (i : Nat) (f : Layer → Layer) (layers : List Layer) :
    changeBelow i f (layers.modify i f) = changeBelow (i + 1) f layers := by
  apply List.ext_getElem?
  intro n
  simp only [getElem?_changeBelow, List.getElem?_modify]
  by_cases hn : i = n
  · subst hn
    simp
  · by_cases hlt : n < i
    · have hlt' : n < i + 1 := by omega
      simp [hn, hlt, hlt']
    · have hlt' : ¬ n < i + 1 := by omega
      simp [hn, hlt, hlt']

end Stack

namespace Alone

theorem above {s : Stack P} {r : Report P} {key : Key} (h : Key.ofRaw r.camera r.number = .ok key)
    {i k : Nat} (hi : i ≤ k) :
    Alone ({ s with layers := Stack.changeBelow i (·.noted key s.clock) s.layers }, .above i k r)
      ({ s with layers := Stack.changeBelow k (·.noted key s.clock) s.layers }, .done .done) := by
  induction hi using Nat.decreasingInduction with
  | self =>
    rw [Stage.above, if_neg (Nat.lt_irrefl k)]
    exact .refl _
  | of_succ i hi ih =>
    rw [Stage.above, if_pos hi]
    refine .head rfl (.head rfl (.head ?_ ih))
    have hg : (Stack.changeBelow i (·.noted key s.clock) s.layers)[i]? = s.layers[i]? := by
      rw [Stack.getElem?_changeBelow, if_neg (Nat.lt_irrefl i)]
    simp only [Stage.advance, hg, Stack.layer?]
    cases hl : s.layers[i]? with
    | none => simp only [Stack.changeBelow_succ_of_none hl]
    | some l =>
      have hn := Layer.note_of_ok h l s.clock
      rw [Stack.changeBelow_succ_of_some hl]
      simp only [Option.bind_some, Store.register, h, Except.map, Layer.noted, Layer.extended,
        Layer.lifetime?_of_ok h, Option.map_map, Function.comp_def]

theorem register (s : Stack P) (k : Nat) (r : Report P) :
    Alone (s, .ofRequest k (.register r)) ((s.registerAt k r).1,
      .done (match (s.registerAt k r).2 with | .ok () => .done | .error e => .refused e)) := by
  cases h : Key.ofRaw r.camera r.number with
  | error e =>
    refine .head ?_ (.refl _)
    simp only [Stage.ofRequest, Stage.advance, Stack.registerAt_of_error h]
  | ok key =>
    let s' := ({ s with base := s.base.put (key.entry r.payload) } : Stack P).logs
      (Stack.creation s.base r.camera)
    have hk := Stack.registerAt_of_ok h s k
    rw [hk]
    refine .head ?_ (Alone.above (s := s') h (Nat.zero_le k))
    simp only [Stage.ofRequest, Stage.advance, Stack.registerAt_of_ok h]
    rfl

theorem drop (s : Stack P) (k : Nat) (t : Target) (rest : Stage P) :
    Alone (s, .drop k t rest)
      (t.dropEntries { s with layers := Stack.changeBelow k t.dropRows s.layers }, rest) := by
  induction k generalizing s with
  | zero => exact .head rfl (.refl _)
  | succ k ih =>
    have h := ih { s with layers := s.layers.modify k t.dropRows }
    dsimp only at h
    rw [Stack.changeBelow_modify] at h
    exact .head rfl h

theorem drop_track {s : Stack P} (ha : s.armed = none) (k : Nat) (camera : String)
    (number : Int64) (rest : Stage P) :
    Alone (s, .drop k (.track camera number) rest) (s.removeAt k camera number, rest) := by
  have h := drop s k (.track camera number) rest
  have hs : (Target.track camera number).dropEntries
      { s with layers := Stack.changeBelow k (Target.track camera number).dropRows s.layers } =
        s.removeAt k camera number := by
    rw [Stack.removeAt_eq, Stack.fireAbove_of_unarmed (s := s.dropAt k camera number) ha]
    rfl
  rwa [hs] at h

theorem remove {s : Stack P} (ha : s.armed = none) (k : Nat) (camera : String) (number : Int64) :
    Alone (s, .ofRequest k (.remove camera number)) (s.removeAt k camera number, .done .done) :=
  drop_track ha k camera number (.done .done)

theorem clear {s : Stack P} (ha : s.armed = none) (k : Nat) (camera : String) :
    Alone (s, .ofRequest k (.clear camera)) (s.clearAt k camera, .done .done) := by
  have h := drop s k (.all camera) (.done .done)
  have hs : (Target.all camera).dropEntries
      { s with layers := Stack.changeBelow k (Target.all camera).dropRows s.layers } =
        s.clearAt k camera := by
    rw [Stack.clearAt_eq, Stack.fireAbove_of_unarmed (s := s.forgetAt k camera) ha]
    rfl
  rwa [hs] at h

/-! Sweeps -/

theorem armed_removeAt {s : Stack P} (ha : s.armed = none) (k : Nat) (camera : String)
    (number : Int64) : (s.removeAt k camera number).armed = none := by
  rw [Stack.removeAt_eq_without ha]
  exact ha

theorem visitRow {s : Stack P} (ha : s.armed = none) (round : Round P) (c : CameraId)
    (row : Entry Lifetime) (rows : List (Entry Lifetime)) :
    let acc := Stack.visitRow round.number round.policy round.now c (s, round.found) row
    Alone (s, .visit round c (row :: rows)) (acc.1, .visit { round with found := acc.2 } c rows) ∧
      acc.1.armed = none := by
  unfold Stack.visitRow
  cases hn : row.track.toRaw? with
  | none =>
    refine ⟨.head ?_ (.refl _), ha⟩
    simp only [Stage.advance, hn]
  | some number =>
    dsimp only
    cases hl : (s.layer? round.number).bind (·.lifetime? c.text number) with
    | none =>
      refine ⟨.head ?_ (.refl _), ha⟩
      simp only [Stage.advance, hn, hl, Option.bind_none]
    | some life =>
      dsimp only
      cases he : round.policy.evaluate life round.now with
      | none =>
        refine ⟨.head ?_ (.refl _), ha⟩
        simp only [Stage.advance, hn, hl, he, Option.bind_some]
      | some reason =>
        have hf : Stage.advance s (.visit round c (row :: rows)) =
            (s, .fetch round c rows row.track number reason) := by
          simp only [Stage.advance, hn, hl, he, Option.bind_some]
        have hr := armed_removeAt ha round.number c.text number
        dsimp only
        cases hg : s.get? c.text number with
        | none =>
          refine ⟨.head hf (.head ?_ (drop_track ha round.number c.text number _)), hr⟩
          simp only [Stage.advance, hg]
        | some entry =>
          have hd := drop_track ha round.number c.text number
            (.log (.expired ⟨c, row.track⟩ reason)
              (.visit { round with found := round.found ++ [⟨entry, reason⟩] } c rows))
          have hlog := Alone.head (a := (s.removeAt round.number c.text number,
            .log (.expired ⟨c, row.track⟩ reason)
              (.visit { round with found := round.found ++ [⟨entry, reason⟩] } c rows))) rfl (.refl _)
          refine ⟨.head hf (.head ?_ (hd.trans hlog)), hr⟩
          simp only [Stage.advance, hg]

theorem visitRows {s : Stack P} (ha : s.armed = none) (round : Round P) (c : CameraId)
    (rows : List (Entry Lifetime)) :
    let acc := rows.foldl (Stack.visitRow round.number round.policy round.now c) (s, round.found)
    Alone (s, .visit round c rows) (acc.1, .next { round with found := acc.2 }) ∧
      acc.1.armed = none := by
  induction rows generalizing s round with
  | nil => exact ⟨.head rfl (.refl _), ha⟩
  | cons row rows ih =>
    obtain ⟨hv, ha'⟩ := visitRow ha round c row rows
    obtain ⟨hr, ha''⟩ := ih ha' { round with
      found := (Stack.visitRow round.number round.policy round.now c (s, round.found) row).2 }
    exact ⟨hv.trans hr, ha''⟩

theorem visitCameras {s : Stack P} (ha : s.armed = none) (round : Round P) :
    let acc := round.cameras.foldl
      (Stack.visitCamera round.number round.walk round.policy round.now) (s, round.found)
    Alone (s, .next round) (acc.1, .done (.expired acc.2)) := by
  obtain ⟨number, walk, policy, now, cameras, found⟩ := round
  induction cameras generalizing s found with
  | nil => exact .head rfl (.refl _)
  | cons c cameras ih =>
    obtain ⟨hv, ha'⟩ := visitRows ha ⟨number, walk, policy, now, cameras, found⟩ c
      (walk.rows c (((s.layer? number).map (·.rows.entriesOf c)).getD []))
    exact .head rfl (hv.trans (ih ha' _))

theorem sweep {s : Stack P} (ha : s.armed = none) (k : Nat) (w : Walk) (mine : CameraId → Bool) :
    Alone (s, .ofRequest k (.sweep w mine))
      ((s.sweepWhere k w mine).1, .done (.expired (s.sweepWhere k w mine).2)) := by
  refine .head (b := (s, .list k w mine s.clock)) rfl ?_
  unfold Stack.sweepWhere
  cases hl : s.layer? k with
  | none =>
    refine .head ?_ (.refl _)
    simp only [Stage.advance, hl]
  | some l =>
    refine .head ?_ (visitCameras ha
      ⟨k, w, l.policy, s.clock, (w.cameras l.rows.cameras).filter mine, []⟩)
    simp only [Stage.advance, hl]

end Alone

end LiveTracks
