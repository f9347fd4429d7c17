import LiveTracks.Store

/-!
# Stores by raw keys

Callers speak to a store in plain texts and signed numbers. Only `Store.register` can fail, and only
for a pair that names no track; everywhere else such a pair is an unknown track like any other. The
lemmas say what each call comes to in the two views of a store.
-/

namespace LiveTracks

namespace Store

variable {P : Type}

def get? (s : Store P) (camera : String) (number : Int64) : Option (Entry P) :=
  match Key.ofRaw camera number with
  | .ok k => s.find? k
  | .error _ => none

/-- Puts an entry in place of the one of the same key, or says why the pair names no track. -/
def register (s : Store P) (camera : String) (number : Int64) (payload : P) :
    Except KeyError (Store P) :=
  (Key.ofRaw camera number).map fun k => s.put (k.entry payload)

def remove (s : Store P) (camera : String) (number : Int64) : Store P :=
  match Key.ofRaw camera number with
  | .ok k => s.erase k
  | .error _ => s

def getByCamera (s : Store P) (camera : String) : List (Entry P) :=
  match CameraId.ofString? camera with
  | some c => s.entriesOf c
  | none => []

def count (s : Store P) (camera : String) : Nat :=
  match CameraId.ofString? camera with
  | some c => (s.shards[c]?.map (·.size)).getD 0
  | none => 0

/-- Forgets the camera that a text names and retires its shard. The answer of a known camera is the
number of entries that went with it. -/
def clear (s : Store P) (camera : String) : Store P × Option Nat :=
  match CameraId.ofString? camera with
  | some c => (s.forget c, s.shards[c]?.map (·.retire.2))
  | none => (s, none)

/-! ### What they come to -/

theorem get?_eq_some_iff {s : Store P} {camera : String} {number : Int64} {e : Entry P} :
    s.get? camera number = some e ↔
      Key.ofRaw camera number = .ok e.key ∧ s.find? e.key = some e := by
  unfold get?
  cases hk : Key.ofRaw camera number with
  | error f => simp
  | ok k =>
    simp only [Except.ok.injEq]
    constructor
    · intro h
      have := key_of_find? h
      subst this
      exact ⟨rfl, h⟩
    · rintro ⟨rfl, h⟩
      exact h

theorem register_eq_ok_iff {s s' : Store P} {camera : String} {number : Int64} {payload : P} :
    s.register camera number payload = .ok s' ↔
      ∃ k, Key.ofRaw camera number = .ok k ∧ s' = s.put (k.entry payload) := by
  unfold register
  cases Key.ofRaw camera number <;> simp [Except.map, eq_comm]

theorem register_eq_error_iff {s : Store P} {camera : String} {number : Int64} {payload : P}
    {e : KeyError} :
    s.register camera number payload = .error e ↔ Key.ofRaw camera number = .error e := by
  unfold register
  cases Key.ofRaw camera number <;> simp [Except.map]

theorem find?_remove (s : Store P) (camera : String) (number : Int64) (k : Key) :
    (s.remove camera number).find? k =
      if camera = k.camera.text ∧ TrackId.ofRaw? number = some k.track then none
      else s.find? k := by
  by_cases h : camera = k.camera.text ∧ TrackId.ofRaw? number = some k.track
  · rw [if_pos h, remove, Key.ofRaw_eq_ok_iff.2 h]
    simp [find?_erase]
  · rw [if_neg h]
    unfold remove
    split
    · rename_i k' hk
      rw [find?_erase, if_neg]
      rintro rfl
      exact h (Key.ofRaw_eq_ok_iff.1 hk)
    · rfl

@[simp] theorem knows_remove (s : Store P) (camera : String) (number : Int64) (c : CameraId) :
    (s.remove camera number).knows c = s.knows c := by
  unfold remove
  split
  · exact knows_erase _ _ _
  · rfl

theorem mem_getByCamera {s : Store P} {camera : String} {e : Entry P} :
    e ∈ s.getByCamera camera ↔ camera = e.camera.text ∧ s.find? e.key = some e := by
  unfold getByCamera
  cases hc : CameraId.ofString? camera with
  | none =>
    simp [CameraId.ofString?_eq_none_iff.1 hc, e.camera.text_ne.symm]
  | some c =>
    cases CameraId.ofString?_eq_some_iff.1 hc
    rw [mem_entriesOf, CameraId.ext_iff, eq_comm]

theorem count_eq_length (s : Store P) (camera : String) :
    s.count camera = (s.getByCamera camera).length := by
  unfold count getByCamera entriesOf
  cases CameraId.ofString? camera with
  | none => rfl
  | some c => cases hs : s.shards[c]? <;> simp [hs, Shard.length_entries]

theorem find?_clear (s : Store P) (camera : String) (k : Key) :
    (s.clear camera).1.find? k = if camera = k.camera.text then none else s.find? k := by
  unfold clear
  cases hc : CameraId.ofString? camera with
  | none =>
    simp [CameraId.ofString?_eq_none_iff.1 hc, k.camera.text_ne.symm]
  | some c =>
    cases CameraId.ofString?_eq_some_iff.1 hc
    simp only [find?_forget, CameraId.ext_iff, @eq_comm _ c.text]

theorem knows_clear (s : Store P) (camera : String) (c : CameraId) :
    (s.clear camera).1.knows c = (!decide (camera = c.text) && s.knows c) := by
  unfold clear
  cases hc : CameraId.ofString? camera with
  | none =>
    simp [CameraId.ofString?_eq_none_iff.1 hc, c.text_ne.symm]
  | some c' =>
    cases CameraId.ofString?_eq_some_iff.1 hc
    simp only [knows_forget, CameraId.ext_iff, @eq_comm _ c'.text]

theorem clear_snd (s : Store P) (c : CameraId) :
    (s.clear c.text).2 = if s.knows c then some (s.count c.text) else none := by
  simp only [clear, count, CameraId.ofString?_text, knows_eq_isSome]
  cases s.shards[c]? <;> simp [Shard.retire]

end Store

end LiveTracks
