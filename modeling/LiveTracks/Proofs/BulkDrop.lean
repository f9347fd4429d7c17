import LiveTracks.Stack.Sweep

/-!
# Dropping many tracks at once

`without` drops all tracks that a test picks, from a store, from a layer and from the lowest numbers
of a stack. Removals of single tracks are such droppings, and droppings compose by joining their
tests, so any series of removals is known as soon as the set of its keys is.
-/

namespace LiveTracks

variable {P : Type}

def Key.isNamed (camera : String) (number : Int64) (k : Key) : Bool :=
  decide (camera = k.camera.text ∧ TrackId.ofRaw? number = some k.track)

theorem Key.isNamed_iff {camera : String} {number : Int64} {k : Key} :
    k.isNamed camera number = true ↔ Key.ofRaw camera number = .ok k := by
  rw [Key.ofRaw_eq_ok_iff]
  simp [Key.isNamed]

theorem Key.ne_of_isNamed_eq_false {camera : String} {number : Int64} {k k' : Key}
    (h : k.isNamed camera number = false) (hk : Key.ofRaw camera number = .ok k') : k ≠ k' := by
  rintro rfl
  rw [Key.isNamed_iff.2 hk] at h
  cases h

/-! ### Stores -/

def Shard.without (s : Shard P) (gone : TrackId → Bool) : Shard P :=
  { s with tracks := s.tracks.filter fun t _ => !gone t }

theorem Shard.get?_without (s : Shard P) (gone : TrackId → Bool) (t : TrackId) :
    (s.without gone).get? t = if gone t then none else s.get? t := by
  simp only [Shard.get?, Shard.without, Std.ExtTreeMap.getElem?_filter']
  cases gone t <;> cases s.tracks[t]? <;> simp

theorem Shard.Serves.without {s : Shard P} {c : CameraId} (hs : s.Serves c)
    (gone : TrackId → Bool) : (s.without gone).Serves c where
  live := hs.live
  placed t e h := by
    rw [Shard.get?_without] at h
    split at h
    · cases h
    · exact hs.placed t e h

namespace Store

/-- The store without the entries of the keys that `gone` picks. All cameras stay known. -/
def without (s : Store P) (gone : Key → Bool) : Store P where
  shards := s.shards.map fun c shard => shard.without fun t => gone ⟨c, t⟩
  serves c shard h := by
    rw [Std.ExtTreeMap.getElem?_map] at h
    obtain ⟨old, ho, rfl⟩ := Option.map_eq_some_iff.1 h
    exact (s.serves c old ho).without _

theorem find?_without (s : Store P) (gone : Key → Bool) (k : Key) :
    (s.without gone).find? k = if gone k then none else s.find? k := by
  simp only [find?, without, Std.ExtTreeMap.getElem?_map]
  cases s.shards[k.camera]? with
  | none => simp
  | some shard =>
    show (shard.without _).get? k.track = _
    rw [Shard.get?_without]
    rfl

@[simp] theorem knows_without (s : Store P) (gone : Key → Bool) (c : CameraId) :
    (s.without gone).knows c = s.knows c :=
  Std.ExtTreeMap.contains_map

theorem without_without (s : Store P) (p q : Key → Bool) :
    (s.without p).without q = s.without fun k => p k || q k := by
  apply ext
  · intro k
    simp only [find?_without]
    cases p k <;> cases q k <;> simp
  · intro c
    simp only [knows_without]

theorem without_eq_self {s : Store P} {gone : Key → Bool}
    (h : ∀ k, gone k = true → s.find? k = none) : s.without gone = s := by
  apply ext
  · intro k
    rw [find?_without]
    split
    · rename_i hk
      exact (h k hk).symm
    · rfl
  · intro c
    exact knows_without s gone c

theorem remove_eq_without (s : Store P) (camera : String) (number : Int64) :
    s.remove camera number = s.without (Key.isNamed camera number) := by
  apply ext
  · intro k
    rw [find?_remove, find?_without]
    simp only [Key.isNamed, decide_eq_true_eq]
  · intro c
    rw [knows_remove, knows_without]

end Store

/-! ### Layers -/

def Layer.without (l : Layer) (gone : Key → Bool) : Layer := { l with rows := l.rows.without gone }

@[simp] theorem Layer.rows_without (l : Layer) (gone : Key → Bool) :
    (l.without gone).rows = l.rows.without gone := rfl

@[simp] theorem Layer.policy_without (l : Layer) (gone : Key → Bool) :
    (l.without gone).policy = l.policy := rfl

theorem Layer.drop_eq_without (l : Layer) (camera : String) (number : Int64) :
    l.drop camera number = l.without (Key.isNamed camera number) := by
  simp only [Layer.drop, Layer.without, Store.remove_eq_without]

namespace Stack

theorem getElem?_changeBelow (k : Nat) (f : Layer → Layer) (layers : List Layer) (i : Nat) :
    (changeBelow k f layers)[i]? = if i < k then layers[i]?.map f else layers[i]? := by
  induction layers generalizing k i with
  | nil => simp [changeBelow]
  | cons l layers ih =>
    cases k with
    | zero => simp [changeBelow]
    | succ k =>
      show (f l :: changeBelow k f layers)[i]? = _
      cases i with
      | zero => simp
      | succ i => simpa using ih k i

@[simp] theorem length_changeBelow (k : Nat) (f : Layer → Layer) (layers : List Layer) :
    (changeBelow k f layers).length = layers.length := by
  simp only [changeBelow, List.length_append, List.length_map, List.length_take, List.length_drop]
  omega

theorem changeBelow_changeBelow (k : Nat) (f g : Layer → Layer) (layers : List Layer) :
    changeBelow k g (changeBelow k f layers) = changeBelow k (fun l => g (f l)) layers := by
  apply List.ext_getElem?
  intro i
  simp only [getElem?_changeBelow]
  split <;> simp [Option.map_map, Function.comp_def]

theorem changeBelow_congr {k : Nat} {f g : Layer → Layer} {layers : List Layer}
    (h : ∀ i l, i < k → layers[i]? = some l → f l = g l) :
    changeBelow k f layers = changeBelow k g layers := by
  apply List.ext_getElem?
  intro i
  simp only [getElem?_changeBelow]
  split
  · rename_i hi
    cases hl : layers[i]? with
    | none => rfl
    | some l => rw [Option.map_some, Option.map_some, h i l hi hl]
  · rfl

theorem changeBelow_id (k : Nat) (layers : List Layer) :
    changeBelow k (fun l => l) layers = layers := by
  apply List.ext_getElem?
  intro i
  simp [getElem?_changeBelow]

/-! ### Stacks -/

def row? (s : Stack P) (j : Nat) (k : Key) : Option Lifetime :=
  (s.layer? j).bind fun l => (l.rows.find? k).map (·.payload)

/-- The stack without the tracks that `gone` picks, dropped from number `k` downwards. -/
def without (s : Stack P) (k : Nat) (gone : Key → Bool) : Stack P :=
  { s with base := s.base.without gone, layers := changeBelow k (·.without gone) s.layers }

@[simp] theorem base_without (s : Stack P) (k : Nat) (gone : Key → Bool) :
    (s.without k gone).base = s.base.without gone := rfl

@[simp] theorem clock_without (s : Stack P) (k : Nat) (gone : Key → Bool) :
    (s.without k gone).clock = s.clock := rfl

@[simp] theorem armed_without (s : Stack P) (k : Nat) (gone : Key → Bool) :
    (s.without k gone).armed = s.armed := rfl

@[simp] theorem logs_nil (s : Stack P) : s.logs [] = s := by
  simp only [logs, List.append_nil]

@[simp] theorem base_logs (s : Stack P) (events : List Event) : (s.logs events).base = s.base := rfl

@[simp] theorem clock_logs (s : Stack P) (events : List Event) :
    (s.logs events).clock = s.clock := rfl

@[simp] theorem armed_logs (s : Stack P) (events : List Event) :
    (s.logs events).armed = s.armed := rfl

@[simp] theorem layer?_logs (s : Stack P) (events : List Event) (j : Nat) :
    (s.logs events).layer? j = s.layer? j := by
  cases j <;> rfl

@[simp] theorem row?_logs (s : Stack P) (events : List Event) (j : Nat) (key : Key) :
    (s.logs events).row? j key = s.row? j key := by
  simp only [row?, layer?_logs]

theorem layer?_congr {s s' : Stack P} (h : s'.layers = s.layers) (j : Nat) :
    s'.layer? j = s.layer? j := by
  cases j with
  | zero => rfl
  | succ j =>
    show s'.layers[j]? = s.layers[j]?
    rw [h]

theorem layer?_changeBelow (s : Stack P) (base : Store P) (k : Nat) (f : Layer → Layer) (j : Nat) :
    ({ s with base, layers := changeBelow k f s.layers } : Stack P).layer? j =
      (s.layer? j).map fun l => if j ≤ k then f l else l := by
  cases j with
  | zero => rfl
  | succ j =>
    show (changeBelow k f s.layers)[j]? = s.layers[j]?.map _
    rw [getElem?_changeBelow]
    by_cases hj : j < k
    · have hk : j + 1 ≤ k := hj
      simp [hj, hk]
    · have hk : ¬ j + 1 ≤ k := hj
      simp [hj, hk]

theorem layer?_without (s : Stack P) (k : Nat) (gone : Key → Bool) (j : Nat) :
    (s.without k gone).layer? j = (s.layer? j).map fun l => if j ≤ k then l.without gone else l :=
  layer?_changeBelow s _ k _ j

theorem row?_without (s : Stack P) (k : Nat) (gone : Key → Bool) (j : Nat) (key : Key) :
    (s.without k gone).row? j key = if j ≤ k ∧ gone key then none else s.row? j key := by
  unfold row?
  rw [layer?_without]
  cases s.layer? j with
  | none => simp
  | some l =>
    by_cases hj : j ≤ k
    · cases hg : gone key <;> simp [hj, hg, Store.find?_without]
    · simp [hj]

theorem row?_congr {s s' : Stack P} (h : s'.layers = s.layers) (j : Nat) (key : Key) :
    s'.row? j key = s.row? j key := by
  rw [row?, layer?_congr h, row?]

theorem without_without (s : Stack P) (k : Nat) (p q : Key → Bool) :
    (s.without k p).without k q = s.without k fun key => p key || q key := by
  simp only [without, changeBelow_changeBelow, Store.without_without, Layer.without]

theorem without_eq_self {s : Stack P} {k : Nat} {gone : Key → Bool}
    (hb : ∀ key, gone key = true → s.base.find? key = none)
    (hl : ∀ j key, j ≤ k → gone key = true → s.row? j key = none) : s.without k gone = s := by
  have hs : changeBelow k (·.without gone) s.layers = s.layers := by
    rw [← changeBelow_id k s.layers, changeBelow_changeBelow]
    apply changeBelow_congr
    intro i l hi he
    have hr : l.rows.without gone = l.rows := by
      apply Store.without_eq_self
      intro key hk
      have hn := hl (i + 1) key hi hk
      simpa [row?, layer?, he] using hn
    show ({ l with rows := l.rows.without gone } : Layer) = l
    rw [hr]
  unfold without
  rw [hs, Store.without_eq_self hb]

theorem fireAbove_of_unarmed {s : Stack P} (h : s.armed = none) (k : Nat) : s.fireAbove k = s := by
  simp only [fireAbove, fire, h, ite_self]

theorem removeAt_eq_without {s : Stack P} (h : s.armed = none) (k : Nat) (camera : String)
    (number : Int64) : s.removeAt k camera number = s.without k (Key.isNamed camera number) := by
  unfold removeAt
  rw [fireAbove_of_unarmed]
  · simp only [without, Store.remove_eq_without, Layer.drop_eq_without]
  · exact h

/-- A series of removals drops the keys that are named in it, in whatever order and how often. -/
theorem foldl_removeAt {s : Stack P} (h : s.armed = none) (k : Nat)
    (pairs : List (String × Int64)) :
    pairs.foldl (fun s p => s.removeAt k p.1 p.2) s =
      s.without k fun key => pairs.any fun p => key.isNamed p.1 p.2 := by
  induction pairs generalizing s with
  | nil =>
    symm
    apply without_eq_self
    · intro key hk
      simp at hk
    · intro j key hj hk
      simp at hk
  | cons p pairs ih =>
    have ha : (s.removeAt k p.1 p.2).armed = none := by
      rw [removeAt_eq_without h]
      exact h
    rw [List.foldl_cons, ih ha, removeAt_eq_without h, without_without]
    rfl

end Stack

end LiveTracks
