import LiveTracks.Json.Number
import LiveTracks.Json.String

/-!
# Values that nobody asks for

`skipValue` passes over one value of any kind and depth and checks no more than that it is written as
JSON. It keeps the lists and objects that are still open, innermost first.
-/

namespace LiveTracks.Json

/-- Passes over a number without its sign. Its range does not matter. -/
def skipNumber (s : Bytes) : Reading Unit :=
  (readNumeral .badNumber s).andThen fun _ s => .ok ((), s)

def skipScalar : Bytes → Reading Unit
  | [] => .error ⟨.endInValue, []⟩
  | b :: s =>
    if b = lettern then readWord ull s
    else if b = lettert then readWord rue s
    else if b = letterf then readWord alse s
    else if b = minus then skipNumber s
    else if isDigit b then skipNumber (b :: s)
    else if b = quote then skipString s
    else .error ⟨.noValue, s⟩

/-- A list or an object that has been opened and not yet closed. -/
inductive Frame where
  | list
  | object
deriving DecidableEq, Repr

namespace Frame

def closer : Frame → UInt8
  | list => closeList
  | object => closeObject

def atEnd : Frame → Cause
  | list => .endInList
  | object => .endInObject

def noComma : Frame → Cause
  | list => .noListComma
  | object => .noObjectComma

end Frame

def skipKey (s : Bytes) : Reading Unit :=
  match skipBlanks s with
  | [] => .error ⟨.endInObject, []⟩
  | b :: s' =>
    if b = quote then
      (skipString s').andThen fun _ s =>
      match skipBlanks s with
      | [] => .error ⟨.endInObject, []⟩
      | b :: s' => if b = colon then .ok ((), s') else .error ⟨.noColon, s'⟩
    else .error ⟨.keyNotString, s'⟩

def Frame.skipLead : Frame → Bytes → Reading Unit
  | list, s => .ok ((), s)
  | object, s => skipKey s

/-- Passes over commas and closers behind a value up to where the next value begins: the frames that
are open there, or none and the bytes behind the outermost value. -/
def skipBetween : List Frame → Bytes → Reading (List Frame)
  | [], s => .ok ([], s)
  | f :: frames, s =>
    match skipBlanks s with
    | [] => .error ⟨f.atEnd, []⟩
    | b :: s' =>
      if b = comma then (f.skipLead s').andThen fun _ s => .ok (f :: frames, s)
      else if b = f.closer then skipBetween frames s'
      else .error ⟨f.noComma, s'⟩

/-- Passes over what follows the opening of a frame, up to where the next value begins, as
`skipBetween`. -/
def skipOpened (f : Frame) (frames : List Frame) (s : Bytes) : Reading (List Frame) :=
  match skipBlanks s with
  | [] => .error ⟨f.atEnd, []⟩
  | b :: s' =>
    if b = f.closer then skipBetween frames s'
    else (f.skipLead (b :: s')).andThen fun _ s => .ok (f :: frames, s)

/-- Passes over a scalar or the opening of a frame, up to where the next value begins, as
`skipBetween`. -/
def skipStep (frames : List Frame) (s : Bytes) : Reading (List Frame) :=
  match skipBlanks s with
  | [] => .error ⟨.endInValue, []⟩
  | b :: s' =>
    if b = openList then skipOpened .list frames s'
    else if b = openObject then skipOpened .object frames s'
    else (skipScalar (b :: s')).andThen fun _ s => skipBetween frames s

/-! ### Lengths -/

theorem length_skipBlanks_lt {s s' : Bytes} {b : UInt8} (h : skipBlanks s = b :: s') :
    s'.length < s.length := by
  have := length_skipBlanks_le s
  rw [h] at this
  exact this

theorem length_lt_of_skipNumber {s r : Bytes} {u : Unit} (h : skipNumber s = .ok (u, r)) :
    r.length < s.length := by
  obtain ⟨x, s1, h1, h⟩ := Reading.andThen_eq_ok_iff.1 h
  injection h with h
  simp only [Prod.mk.injEq] at h
  exact h.2 ▸ length_lt_of_readNumeral h1

theorem length_lt_of_skipScalar {s r : Bytes} {u : Unit} (h : skipScalar s = .ok (u, r)) :
    r.length < s.length := by
  cases s with
  | nil => cases h
  | cons b s =>
    simp only [skipScalar] at h
    split at h
    · exact Nat.lt_succ_of_le (length_le_of_readWord h)
    · split at h
      · exact Nat.lt_succ_of_le (length_le_of_readWord h)
      · split at h
        · exact Nat.lt_succ_of_le (length_le_of_readWord h)
        · split at h
          · exact Nat.lt_succ_of_lt (length_lt_of_skipNumber h)
          · split at h
            · exact length_lt_of_skipNumber h
            · split at h
              · exact Nat.lt_succ_of_lt (length_lt_of_skipString h)
              · cases h

theorem length_le_of_skipKey {s r : Bytes} {u : Unit} (h : skipKey s = .ok (u, r)) :
    r.length ≤ s.length := by
  unfold skipKey at h
  split at h
  · cases h
  · rename_i b s' hb
    have hb := length_skipBlanks_lt hb
    split at h
    · obtain ⟨u', s1, h1, h⟩ := Reading.andThen_eq_ok_iff.1 h
      have h1 := length_lt_of_skipString h1
      split at h
      · cases h
      · rename_i b' s'' hb'
        have hb' := length_skipBlanks_lt hb'
        split at h
        · injection h with h
          simp only [Prod.mk.injEq] at h
          rw [← h.2]
          omega
        · cases h
    · cases h

theorem length_le_of_skipLead {f : Frame} {s r : Bytes} {u : Unit}
    (h : f.skipLead s = .ok (u, r)) : r.length ≤ s.length := by
  cases f with
  | list =>
    injection h with h
    simp only [Prod.mk.injEq] at h
    exact h.2 ▸ Nat.le_refl _
  | object => exact length_le_of_skipKey h

theorem length_le_of_skipBetween {frames frames' : List Frame} {s r : Bytes}
    (h : skipBetween frames s = .ok (frames', r)) : r.length ≤ s.length := by
  induction frames generalizing s with
  | nil =>
    injection h with h
    simp only [Prod.mk.injEq] at h
    exact h.2 ▸ Nat.le_refl _
  | cons f frames ih =>
    unfold skipBetween at h
    split at h
    · cases h
    · rename_i b s' hb
      have hb := length_skipBlanks_lt hb
      split at h
      · obtain ⟨u, s1, h1, h⟩ := Reading.andThen_eq_ok_iff.1 h
        have h1 := length_le_of_skipLead h1
        injection h with h
        simp only [Prod.mk.injEq] at h
        rw [← h.2]
        omega
      · split at h
        · have := ih h
          omega
        · cases h

theorem length_le_of_skipOpened {f : Frame} {frames frames' : List Frame} {s r : Bytes}
    (h : skipOpened f frames s = .ok (frames', r)) : r.length ≤ s.length := by
  unfold skipOpened at h
  split at h
  · cases h
  · rename_i b s' hb
    have hb := length_skipBlanks_lt hb
    split at h
    · have := length_le_of_skipBetween h
      omega
    · obtain ⟨u, s1, h1, h⟩ := Reading.andThen_eq_ok_iff.1 h
      have h1 := length_le_of_skipLead h1
      injection h with h
      simp only [Prod.mk.injEq] at h
      rw [← h.2]
      simp only [List.length_cons] at h1
      omega

theorem length_lt_of_skipStep {frames frames' : List Frame} {s r : Bytes}
    (h : skipStep frames s = .ok (frames', r)) : r.length < s.length := by
  unfold skipStep at h
  split at h
  · cases h
  · rename_i b s' hb
    have hl := length_skipBlanks_lt hb
    split at h
    · have := length_le_of_skipOpened h
      omega
    · split at h
      · have := length_le_of_skipOpened h
        omega
      · obtain ⟨u, s1, h1, h⟩ := Reading.andThen_eq_ok_iff.1 h
        have h1 := length_lt_of_skipScalar h1
        have := length_le_of_skipBetween h
        simp only [List.length_cons] at h1
        omega

/-! ### Whole values -/

def skipFrames (frames : List Frame) (s : Bytes) : Reading Unit :=
  match h : skipStep frames s with
  | .error e => .error e
  | .ok ([], rest) => .ok ((), rest)
  | .ok (f :: frames', rest) =>
    have : rest.length < s.length := length_lt_of_skipStep h
    skipFrames (f :: frames') rest
termination_by s.length

def skipValue (s : Bytes) : Reading Unit := skipFrames [] s

theorem length_lt_of_skipFrames {frames : List Frame} {s r : Bytes} {u : Unit}
    (h : skipFrames frames s = .ok (u, r)) : r.length < s.length := by
  fun_induction skipFrames frames s with
  | case1 => cases h
  | case2 frames s rest hs =>
    injection h with h
    simp only [Prod.mk.injEq] at h
    exact h.2 ▸ length_lt_of_skipStep hs
  | case3 frames s f frames' rest hs hl ih => exact Nat.lt_trans (ih h) hl

end LiveTracks.Json
