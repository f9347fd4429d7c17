import LiveTracks.Proofs.BulkDrop

/-!
# What a report comes to

A report of a pair that names no track is refused by the store, before any layer hears of it. Any
other report puts its entry into the store and then succeeds in every layer that it is noted in
(`registerAt_of_ok`), since layers look at the same two parts of the key.
-/

namespace LiveTracks

variable {P : Type}

/-! ### Layers -/

/-- The lifetime of a key once it has been reported at `now`. -/
def Layer.extended (l : Layer) (k : Key) (now : Instant) : Lifetime :=
  ⟨((l.rows.find? k).map (·.payload.firstSeen)).getD now, now⟩

def Layer.noted (l : Layer) (k : Key) (now : Instant) : Layer :=
  { l with rows := l.rows.put (k.entry (l.extended k now)) }

theorem Layer.lifetime?_of_ok {camera : String} {number : Int64} {k : Key}
    (h : Key.ofRaw camera number = .ok k) (l : Layer) :
    l.lifetime? camera number = (l.rows.find? k).map (·.payload) := by
  simp only [Layer.lifetime?, Store.get?, h]

theorem Layer.note_of_ok {camera : String} {number : Int64} {k : Key}
    (h : Key.ofRaw camera number = .ok k) (l : Layer) (now : Instant) :
    l.note camera number now = .ok (l.noted k now) := by
  unfold Layer.note Layer.noted Layer.extended
  rw [Layer.lifetime?_of_ok h, Option.map_map]
  simp only [Store.register, h, Except.map, Function.comp_def]

theorem Layer.note_eq_ok_iff {camera : String} {number : Int64} {now : Instant} {l l' : Layer} :
    l.note camera number now = .ok l' ↔
      ∃ k, Key.ofRaw camera number = .ok k ∧ l' = l.noted k now := by
  cases h : Key.ofRaw camera number with
  | ok k =>
    rw [Layer.note_of_ok h]
    simp [eq_comm]
  | error e => simp [Layer.note, Store.register, h, Except.map]

theorem Layer.find?_noted (l : Layer) (k k' : Key) (now : Instant) :
    (l.noted k now).rows.find? k' =
      if k' = k then some (k.entry (l.extended k now)) else l.rows.find? k' := by
  unfold Layer.noted
  rw [Store.find?_put, Key.key_entry]

/-! ### Stacks -/

namespace Stack

theorem noteBelow_of_ok {camera : String} {number : Int64} {key : Key}
    (h : Key.ofRaw camera number = .ok key) (now : Instant) (k : Nat) (layers : List Layer) :
    noteBelow camera number now k layers = (changeBelow k (·.noted key now) layers, .ok ()) := by
  induction layers generalizing k with
  | nil => cases k <;> rfl
  | cons l layers ih =>
    cases k with
    | zero => rfl
    | succ k =>
      simp only [noteBelow, Layer.note_of_ok h, ih k]
      rfl

def reported (s : Stack P) (k : Nat) (key : Key) (payload : P) : Stack P :=
  { s with
    base := s.base.put (key.entry payload)
    layers := changeBelow k (·.noted key s.clock) s.layers }

theorem registerAt_of_ok {r : Report P} {key : Key} (h : Key.ofRaw r.camera r.number = .ok key)
    (s : Stack P) (k : Nat) :
    s.registerAt k r =
      ((s.reported k key r.payload).logs (creation s.base r.camera), .ok ()) := by
  unfold registerAt
  simp only [Store.register, h, Except.map, noteBelow_of_ok h]
  rfl

theorem registerAt_of_error {r : Report P} {e : KeyError}
    (h : Key.ofRaw r.camera r.number = .error e) (s : Stack P) (k : Nat) :
    s.registerAt k r = (s.logs [.rejected r.camera e], .error e) := by
  unfold registerAt
  simp only [Store.register, h, Except.map]

end Stack

end LiveTracks
