import LiveTracks.Entry

/-!
# Shards

A shard holds the entries of one camera. Once its camera has been cleared it is retired: it is
empty and takes no more entries, so that whoever still holds on to it has to look up the camera
anew.
-/

namespace LiveTracks

/-- The entries of one camera by track, and whether the shard still takes entries. -/
structure Shard (P : Type) where
  tracks : Std.ExtTreeMap TrackId (Entry P)
  retired : Bool

namespace Shard

variable {P : Type}

def fresh : Shard P := ⟨∅, false⟩

def single (e : Entry P) : Shard P := ⟨Std.ExtTreeMap.empty.insert e.track e, false⟩

/-- Puts an entry in place of the one of the same track; a retired shard refuses. -/
def insert? (s : Shard P) (e : Entry P) : Option (Shard P) :=
  if s.retired then none else some { s with tracks := s.tracks.insert e.track e }

def get? (s : Shard P) (t : TrackId) : Option (Entry P) := s.tracks[t]?

def entries (s : Shard P) : List (Entry P) := s.tracks.toList.map (·.2)

def erase (s : Shard P) (t : TrackId) : Shard P := { s with tracks := s.tracks.erase t }

def size (s : Shard P) : Nat := s.tracks.size

def liveSize? (s : Shard P) : Option Nat := if s.retired then none else some s.size

/-- Drops all entries and takes no more: the empty shard and the number of entries dropped. -/
def retire (s : Shard P) : Shard P × Nat := (⟨∅, true⟩, s.size)

@[ext] theorem ext {a b : Shard P} (ht : ∀ t, a.get? t = b.get? t) (hr : a.retired = b.retired) :
    a = b := by
  obtain ⟨ta, ra⟩ := a
  obtain ⟨tb, rb⟩ := b
  have : ta = tb := Std.ExtTreeMap.ext_getElem? ht
  simp_all

/-! ### What each operation does to the entries -/

@[simp] theorem get?_fresh (t : TrackId) : (fresh : Shard P).get? t = none := by
  simp [fresh, get?]

@[simp] theorem retired_fresh : (fresh : Shard P).retired = false := rfl

theorem get?_single (e : Entry P) (t : TrackId) :
    (single e).get? t = if t = e.track then some e else none := by
  have h : (Std.ExtTreeMap.empty : Std.ExtTreeMap TrackId (Entry P))[t]? = none := by simp
  simp only [get?, single, Std.ExtTreeMap.getElem?_insert, Std.compare_eq_iff_eq, @eq_comm _ t, h]

@[simp] theorem retired_single (e : Entry P) : (single e).retired = false := rfl

theorem insert?_eq_none_iff {s : Shard P} {e : Entry P} :
    s.insert? e = none ↔ s.retired = true := by
  simp [insert?]

theorem get?_of_insert? {s s' : Shard P} {e : Entry P} (h : s.insert? e = some s') (t : TrackId) :
    s'.get? t = if t = e.track then some e else s.get? t := by
  unfold insert? at h
  split at h
  · cases h
  · cases h
    simp only [get?, Std.ExtTreeMap.getElem?_insert, Std.compare_eq_iff_eq, @eq_comm _ t]

theorem retired_of_insert? {s s' : Shard P} {e : Entry P} (h : s.insert? e = some s') :
    s.retired = false ∧ s'.retired = false := by
  unfold insert? at h
  split at h
  · cases h
  · cases h
    simp_all

theorem get?_erase (s : Shard P) (t t' : TrackId) :
    (s.erase t).get? t' = if t' = t then none else s.get? t' := by
  simp only [get?, erase, Std.ExtTreeMap.getElem?_erase, Std.compare_eq_iff_eq, @eq_comm _ t']

@[simp] theorem retired_erase (s : Shard P) (t : TrackId) : (s.erase t).retired = s.retired := rfl

@[simp] theorem retired_retire (s : Shard P) : s.retire.1.retired = true := rfl

@[simp] theorem get?_retire (s : Shard P) (t : TrackId) : s.retire.1.get? t = none := by
  simp [get?, retire]

@[simp] theorem insert?_retire (s : Shard P) (e : Entry P) : s.retire.1.insert? e = none := rfl

theorem mem_entries {s : Shard P} {e : Entry P} : e ∈ s.entries ↔ ∃ t, s.get? t = some e := by
  simp [entries, get?, Std.ExtTreeMap.mem_toList_iff_getElem?_eq_some]

theorem length_entries (s : Shard P) : s.entries.length = s.size := by
  simp [entries, size, Std.ExtTreeMap.length_toList]

/-! ### Shards in use -/

/-- The shard takes entries, and all of its entries belong to one camera and stand under their own
tracks. -/
structure Serves (s : Shard P) (c : CameraId) : Prop where
  live : s.retired = false
  placed : ∀ t e, s.get? t = some e → e.camera = c ∧ e.track = t

theorem serves_single (e : Entry P) : (single e).Serves e.camera where
  live := rfl
  placed t e' h := by
    rw [get?_single] at h
    split at h
    · rename_i ht
      cases h
      exact ⟨rfl, ht.symm⟩
    · cases h

theorem Serves.insert? {s s' : Shard P} {e : Entry P} (hs : s.Serves e.camera)
    (h : s.insert? e = some s') : s'.Serves e.camera where
  live := (retired_of_insert? h).2
  placed t e' he := by
    rw [get?_of_insert? h] at he
    split at he
    · rename_i ht
      cases he
      exact ⟨rfl, ht.symm⟩
    · exact hs.placed t e' he

theorem Serves.erase {s : Shard P} {c : CameraId} (hs : s.Serves c) (t : TrackId) :
    (s.erase t).Serves c where
  live := hs.live
  placed t' e h := by
    rw [get?_erase] at h
    split at h
    · cases h
    · exact hs.placed t' e h

end Shard

end LiveTracks
