import Std.Data.ExtTreeMap

/-!
# Keys of tracks

A track is named by the camera that sees it and by a number that is unique on that camera. Callers
hand in plain text and signed numbers; this module says which of them name a track at all
(`Key.ofRaw`) and which fault is reported otherwise (`KeyError`). Both kinds of identifier are
totally ordered, so that maps over them have one canonical form.
-/

namespace LiveTracks

/-! ### Faults of a key -/

/-- Why a pair of camera and track number names no track. -/
inductive KeyError where
  | emptyCamera
  | negativeTrack (number : Int64)
deriving DecidableEq, Repr

namespace KeyError

def field : KeyError → String
  | emptyCamera => "camera_id"
  | negativeTrack _ => "track_id"

def reason : KeyError → String
  | emptyCamera => "must not be empty"
  | negativeTrack number => "must be non-negative, got " ++ toString number.toInt

def message (e : KeyError) : String :=
  "invalid " ++ e.field ++ ": " ++ e.reason

end KeyError

/-! ### Cameras -/

/-- The name of a camera: any text but the empty one. -/
structure CameraId where
  text : String
  text_ne : text ≠ ""
deriving DecidableEq

namespace CameraId

/-- The camera that a text names; the empty text names none. -/
def ofString? (text : String) : Option CameraId :=
  if h : text = "" then none else some ⟨text, h⟩

def ofString (text : String) : Except KeyError CameraId :=
  match ofString? text with
  | some camera => .ok camera
  | none => .error .emptyCamera

@[simp] theorem ofString?_text (c : CameraId) : ofString? c.text = some c := by
  simp [ofString?, c.text_ne]

theorem ofString?_eq_some_iff {text : String} {c : CameraId} :
    ofString? text = some c ↔ text = c.text := by
  constructor
  · intro h
    unfold ofString? at h
    split at h
    · cases h
    · cases h; rfl
  · rintro rfl
    exact ofString?_text c

theorem ofString?_eq_none_iff {text : String} : ofString? text = none ↔ text = "" := by
  unfold ofString?
  split <;> simp_all

@[simp] theorem ofString_text (c : CameraId) : ofString c.text = .ok c := by
  simp [ofString]

@[ext] theorem ext {a b : CameraId} (h : a.text = b.text) : a = b := by
  cases a; cases b; cases h; rfl

instance : Ord CameraId := ⟨fun a b => compare a.text b.text⟩

theorem compare_eq (a b : CameraId) : compare a b = compare a.text b.text := rfl

instance : Std.TransOrd CameraId where
  eq_swap {a b} := by rw [compare_eq, compare_eq, Std.OrientedOrd.eq_swap]
  isLE_trans {a b c} := by simpa only [compare_eq] using Std.TransOrd.isLE_trans

instance : Std.LawfulEqOrd CameraId where
  compare_self {a} := by rw [compare_eq, Std.compare_self]
  eq_of_compare {a b} h := ext (Std.LawfulEqOrd.eq_of_compare (by rwa [compare_eq] at h))

end CameraId

/-! ### Tracks -/

/-- The number of a track on its camera. -/
structure TrackId where
  value : UInt64
deriving DecidableEq, Repr

namespace TrackId

/-- The track that a signed number names; numbers below zero name none. -/
def ofRaw? (number : Int64) : Option TrackId :=
  if number < 0 then none else some ⟨number.toUInt64⟩

def ofRaw (number : Int64) : Except KeyError TrackId :=
  match ofRaw? number with
  | some track => .ok track
  | none => .error (.negativeTrack number)

/-- The signed number that names this track; tracks from 2⁶³ on have none. -/
def toRaw? (t : TrackId) : Option Int64 :=
  if t.value < 0x8000000000000000 then some t.value.toInt64 else none

@[ext] theorem ext {a b : TrackId} (h : a.value = b.value) : a = b := by
  cases a; cases b; cases h; rfl

theorem ofRaw?_eq_none_iff {number : Int64} : ofRaw? number = none ↔ number < 0 := by
  unfold ofRaw?
  split <;> simp_all

theorem neg_iff_not_lt (number : Int64) :
    number < 0 ↔ ¬ number.toUInt64 < 0x8000000000000000 := by
  have h : number.toInt = if 2 * number.toUInt64.toNat < 2 ^ 64 then (number.toUInt64.toNat : Int)
      else number.toUInt64.toNat - 2 ^ 64 := BitVec.toInt_eq_toNat_cond number.toBitVec
  have h0 : (0 : Int64).toInt = 0 := by decide
  have h1 : (0x8000000000000000 : UInt64).toNat = 2 ^ 63 := by decide
  have h2 := number.toUInt64.toNat_lt
  rw [Int64.lt_iff_toInt_lt, UInt64.lt_iff_toNat_lt, h0, h1, h]
  split <;> omega

/-- The two conversions are inverse to each other: a number names a track exactly if the track
gives back the number. -/
theorem toRaw?_eq_some_iff {number : Int64} {t : TrackId} :
    t.toRaw? = some number ↔ ofRaw? number = some t := by
  unfold toRaw? ofRaw?
  constructor
  · intro h
    split at h
    · rename_i ht
      cases h
      simp [neg_iff_not_lt, ht]
    · cases h
  · intro h
    split at h
    · cases h
    · rename_i hn
      cases h
      have ht := Decidable.not_not.1 (mt (neg_iff_not_lt number).2 hn)
      simp [ht]

instance : Ord TrackId := ⟨fun a b => compare a.value b.value⟩

theorem compare_eq (a b : TrackId) : compare a b = compare a.value b.value := rfl

instance : Std.TransOrd TrackId where
  eq_swap {a b} := by rw [compare_eq, compare_eq, Std.OrientedOrd.eq_swap]
  isLE_trans {a b c} := by simpa only [compare_eq] using Std.TransOrd.isLE_trans

instance : Std.LawfulEqOrd TrackId where
  compare_self {a} := by rw [compare_eq, Std.compare_self]
  eq_of_compare {a b} h := ext (Std.LawfulEqOrd.eq_of_compare (by rwa [compare_eq] at h))

end TrackId

/-! ### Keys -/

/-- What names a track everywhere: its camera and its number there. -/
structure Key where
  camera : CameraId
  track : TrackId
deriving DecidableEq

namespace Key

/-- The key that a text and a signed number name. The camera is looked at first, so its fault is the
one reported when both parts are at fault. -/
def ofRaw (camera : String) (number : Int64) : Except KeyError Key := do
  let camera ← CameraId.ofString camera
  let track ← TrackId.ofRaw number
  return ⟨camera, track⟩

theorem ofRaw_eq_ok_iff {camera : String} {number : Int64} {k : Key} :
    ofRaw camera number = .ok k ↔
      camera = k.camera.text ∧ TrackId.ofRaw? number = some k.track := by
  rw [← CameraId.ofString?_eq_some_iff]
  cases k
  unfold ofRaw CameraId.ofString TrackId.ofRaw
  cases CameraId.ofString? camera <;> cases TrackId.ofRaw? number <;>
    simp [bind, Except.bind, pure, Except.pure]

theorem ofRaw_of_toRaw? {k : Key} {number : Int64} (h : k.track.toRaw? = some number) :
    ofRaw k.camera.text number = .ok k :=
  ofRaw_eq_ok_iff.2 ⟨rfl, TrackId.toRaw?_eq_some_iff.1 h⟩

/-- The only faults of a key are an empty camera and, on a named camera, a number below zero. -/
theorem ofRaw_eq_error_iff {camera : String} {number : Int64} {e : KeyError} :
    ofRaw camera number = .error e ↔
      (camera = "" ∧ e = .emptyCamera) ∨ (camera ≠ "" ∧ number < 0 ∧ e = .negativeTrack number) := by
  rw [ne_eq, ← CameraId.ofString?_eq_none_iff, ← TrackId.ofRaw?_eq_none_iff]
  unfold ofRaw CameraId.ofString TrackId.ofRaw
  cases CameraId.ofString? camera <;> cases TrackId.ofRaw? number <;>
    simp [bind, Except.bind, pure, Except.pure, eq_comm]

end Key

end LiveTracks
