import LiveTracks.Store.Shard

/-!
# Stores

A store keeps the latest entry of every track, camera by camera. A camera is known from the first
entry reported for it until it is cleared, whether or not it has entries in between.

All about a store is said through two views: `Store.find?`, the entry of a key, and `Store.knows`,
whether a camera is known. Stores that agree in both are equal (`Store.ext`).
-/

namespace LiveTracks

/-- A shard for every known camera. -/
structure Store (P : Type) where
  shards : Std.ExtTreeMap CameraId (Shard P)
  serves : ∀ (c : CameraId) (s : Shard P), shards[c]? = some s → s.Serves c

namespace Store

variable {P : Type}

def empty : Store P where
  shards := ∅
  serves c s h := by simp at h

instance : EmptyCollection (Store P) := ⟨empty⟩

/-! ### By key -/

def find? (s : Store P) (k : Key) : Option (Entry P) :=
  s.shards[k.camera]?.bind (·.get? k.track)

def knows (s : Store P) (c : CameraId) : Bool := s.shards.contains c

def cameras (s : Store P) : List CameraId := s.shards.keys

def entriesOf (s : Store P) (c : CameraId) : List (Entry P) :=
  (s.shards[c]?.map (·.entries)).getD []

def counts (s : Store P) : List (CameraId × Nat) :=
  s.shards.toList.filterMap fun (c, shard) => shard.liveSize?.map (c, ·)

def setShard (s : Store P) (c : CameraId) (shard : Shard P) (h : shard.Serves c) : Store P where
  shards := s.shards.insert c shard
  serves c' shard' h' := by
    simp only [Std.ExtTreeMap.getElem?_insert, Std.compare_eq_iff_eq] at h'
    split at h'
    · rename_i hc
      cases h'
      exact hc ▸ h
    · exact s.serves c' shard' h'

/-- Puts an entry in place of the one of the same key. A camera without a shard that takes the entry
gets a fresh one. -/
def put (s : Store P) (e : Entry P) : Store P :=
  match h : s.shards[e.camera]?.bind (·.insert? e) with
  | some shard =>
    s.setShard e.camera shard <| by
      obtain ⟨old, ho, hi⟩ := Option.bind_eq_some_iff.1 h
      exact (s.serves _ _ ho).insert? hi
  | none => s.setShard e.camera (.single e) (Shard.serves_single e)

/-- Drops the entry of a key; its camera stays known. -/
def erase (s : Store P) (k : Key) : Store P :=
  match h : s.shards[k.camera]? with
  | some shard => s.setShard k.camera (shard.erase k.track) ((s.serves _ _ h).erase k.track)
  | none => s

def forget (s : Store P) (c : CameraId) : Store P where
  shards := s.shards.erase c
  serves c' shard h := by
    rw [Std.ExtTreeMap.getElem?_erase] at h
    split at h
    · cases h
    · exact s.serves c' shard h

/-! ### What each operation does to the two views -/

@[simp] theorem find?_empty (k : Key) : (∅ : Store P).find? k = none := by
  show (empty : Store P).find? k = none
  simp [find?, empty]

@[simp] theorem knows_empty (c : CameraId) : (∅ : Store P).knows c = false := by
  show (empty : Store P).knows c = false
  simp [knows, empty]

theorem knows_eq_isSome (s : Store P) (c : CameraId) : s.knows c = s.shards[c]?.isSome :=
  Std.ExtTreeMap.contains_eq_isSome_getElem?

theorem find?_setShard (s : Store P) (c : CameraId) (shard : Shard P) (h : shard.Serves c)
    (k : Key) :
    (s.setShard c shard h).find? k = if k.camera = c then shard.get? k.track else s.find? k := by
  simp only [find?, setShard, Std.ExtTreeMap.getElem?_insert, Std.compare_eq_iff_eq, @eq_comm _ c]
  split <;> rfl

theorem knows_setShard (s : Store P) (c : CameraId) (shard : Shard P) (h : shard.Serves c)
    (c' : CameraId) : (s.setShard c shard h).knows c' = (decide (c' = c) || s.knows c') := by
  simp only [knows_eq_isSome, setShard, Std.ExtTreeMap.getElem?_insert, Std.compare_eq_iff_eq,
    @eq_comm _ c]
  by_cases hc : c' = c <;> simp [hc]

theorem find?_put (s : Store P) (e : Entry P) (k : Key) :
    (s.put e).find? k = if k = e.key then some e else s.find? k := by
  obtain ⟨c, t⟩ := k
  unfold put
  split
  · rename_i shard h
    obtain ⟨old, ho, hi⟩ := Option.bind_eq_some_iff.1 h
    rw [find?_setShard, Shard.get?_of_insert? hi]
    by_cases hc : c = e.camera <;> by_cases ht : t = e.track <;>
      simp_all [Entry.key, find?]
  · rename_i h
    rw [find?_setShard, Shard.get?_single]
    have ho : s.shards[e.camera]? = none := by
      rw [Option.bind_eq_none_iff] at h
      refine Option.eq_none_iff_forall_ne_some.2 fun old ho => ?_
      have := Shard.insert?_eq_none_iff.1 (h old ho)
      simp [(s.serves _ _ ho).live] at this
    by_cases hc : c = e.camera <;> by_cases ht : t = e.track <;>
      simp_all [Entry.key, find?]

theorem knows_put (s : Store P) (e : Entry P) (c : CameraId) :
    (s.put e).knows c = (decide (c = e.camera) || s.knows c) := by
  unfold put
  split <;> rw [knows_setShard]

theorem find?_erase (s : Store P) (k k' : Key) :
    (s.erase k).find? k' = if k' = k then none else s.find? k' := by
  obtain ⟨c, t⟩ := k
  obtain ⟨c', t'⟩ := k'
  unfold erase
  split
  · rename_i shard h
    rw [find?_setShard, Shard.get?_erase]
    by_cases hc : c' = c <;> by_cases ht : t' = t <;> simp_all [find?]
  · rename_i h
    by_cases hc : c' = c <;> by_cases ht : t' = t <;> simp_all [find?]

@[simp] theorem knows_erase (s : Store P) (k : Key) (c : CameraId) :
    (s.erase k).knows c = s.knows c := by
  unfold erase
  split
  · rename_i shard h
    rw [knows_setShard]
    by_cases hc : c = k.camera <;> simp_all [knows_eq_isSome]
  · rfl

theorem find?_forget (s : Store P) (c : CameraId) (k : Key) :
    (s.forget c).find? k = if k.camera = c then none else s.find? k := by
  simp only [find?, forget, Std.ExtTreeMap.getElem?_erase, Std.compare_eq_iff_eq, @eq_comm _ c]
  split <;> rfl

theorem knows_forget (s : Store P) (c c' : CameraId) :
    (s.forget c).knows c' = (!decide (c' = c) && s.knows c') := by
  simp only [knows_eq_isSome, forget, Std.ExtTreeMap.getElem?_erase, Std.compare_eq_iff_eq,
    @eq_comm _ c]
  by_cases hc : c' = c <;> simp [hc]

theorem key_of_find? {s : Store P} {k : Key} {e : Entry P} (h : s.find? k = some e) :
    e.key = k := by
  obtain ⟨shard, hs, he⟩ := Option.bind_eq_some_iff.1 h
  obtain ⟨hc, ht⟩ := (s.serves _ _ hs).placed _ _ he
  simp [Entry.key, hc, ht]

theorem knows_of_find? {s : Store P} {k : Key} {e : Entry P} (h : s.find? k = some e) :
    s.knows k.camera = true := by
  obtain ⟨shard, hs, -⟩ := Option.bind_eq_some_iff.1 h
  simp [knows_eq_isSome, hs]

@[ext] theorem ext {a b : Store P} (hf : ∀ k, a.find? k = b.find? k)
    (hk : ∀ c, a.knows c = b.knows c) : a = b := by
  have hs : a.shards = b.shards := by
    refine Std.ExtTreeMap.ext_getElem? fun c => ?_
    have hc := hk c
    rw [knows_eq_isSome, knows_eq_isSome] at hc
    cases ha : a.shards[c]? with
    | none =>
      rw [ha] at hc
      exact (Option.isSome_eq_false_iff.1 hc.symm |> Option.isNone_iff_eq_none.1).symm
    | some sa =>
      cases hb : b.shards[c]? with
      | none => simp [ha, hb] at hc
      | some sb =>
        have hr := (a.serves _ _ ha).live.trans (b.serves _ _ hb).live.symm
        have ht : ∀ t, sa.get? t = sb.get? t := fun t => by
          simpa [find?, ha, hb] using hf ⟨c, t⟩
        rw [Shard.ext ht hr]
  cases a
  cases b
  cases hs
  rfl

/-! ### What the lists hold -/

theorem mem_cameras {s : Store P} {c : CameraId} : c ∈ s.cameras ↔ s.knows c = true := by
  simp [cameras, knows]

theorem mem_entriesOf {s : Store P} {c : CameraId} {e : Entry P} :
    e ∈ s.entriesOf c ↔ e.camera = c ∧ s.find? e.key = some e := by
  unfold entriesOf find?
  cases hs : s.shards[c]? with
  | none =>
    simp only [Option.map_none, Option.getD_none, List.not_mem_nil, false_iff, not_and]
    rintro rfl
    simp [Entry.key, hs]
  | some shard =>
    simp only [Option.map_some, Option.getD_some, Shard.mem_entries]
    constructor
    · rintro ⟨t, ht⟩
      obtain ⟨rfl, rfl⟩ := (s.serves _ _ hs).placed _ _ ht
      exact ⟨rfl, by simpa [Entry.key, hs] using ht⟩
    · rintro ⟨rfl, h⟩
      exact ⟨e.track, by simpa [Entry.key, hs] using h⟩

end Store

end LiveTracks
