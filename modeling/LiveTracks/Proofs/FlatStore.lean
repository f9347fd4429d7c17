import Mathlib.Data.Finmap
import LiveTracks.Proofs.Listing
import LiveTracks.Proofs.Run

/-!
# Stores as flat maps

A flat store is a finite map from the texts of the known cameras to finite maps from signed numbers to
payloads, and each call is what one would write down for such a map. Whatever is called in whatever
order, with whatever texts and numbers, a store of shards answers as the flat store does
(`answers_eq_flat`). Lists are compared as collections without order, in which every element counts as
often as it occurs.
-/

namespace LiveTracks

variable {P : Type}

/-! ### Look-ups by raw keys -/

theorem Key.ofRaw_eq_ok_iff_of_ok {camera : String} {number : Int64} {k : Key}
    (h : Key.ofRaw camera number = .ok k) (camera' : String) (number' : Int64) :
    Key.ofRaw camera' number' = .ok k ↔ camera' = camera ∧ number' = number := by
  constructor
  · intro h'
    obtain ⟨hc, ht⟩ := Key.ofRaw_eq_ok_iff.1 h
    obtain ⟨hc', ht'⟩ := Key.ofRaw_eq_ok_iff.1 h'
    have hn := TrackId.toRaw?_eq_some_iff.2 ht
    have hn' := TrackId.toRaw?_eq_some_iff.2 ht'
    exact ⟨hc'.trans hc.symm, Option.some.inj (hn'.symm.trans hn)⟩
  · intro hh
    obtain ⟨rfl, rfl⟩ := hh
    exact h

namespace Store

def knowsText (s : Store P) (camera : String) : Bool := (CameraId.ofString? camera).any s.knows

theorem get?_put {s : Store P} {e : Entry P} {camera : String} {number : Int64}
    (h : Key.ofRaw camera number = .ok e.key) (camera' : String) (number' : Int64) :
    (s.put e).get? camera' number' =
      if camera' = camera ∧ number' = number then some e else s.get? camera' number' := by
  have hi := Key.ofRaw_eq_ok_iff_of_ok h camera' number'
  unfold get?
  cases hk : Key.ofRaw camera' number' with
  | error f =>
    rw [hk] at hi
    rw [if_neg fun hc => nomatch hi.2 hc]
  | ok k =>
    rw [hk, Except.ok.injEq] at hi
    simp only [find?_put, hi]

theorem get?_remove (s : Store P) (camera camera' : String) (number number' : Int64) :
    (s.remove camera number).get? camera' number' =
      if camera' = camera ∧ number' = number then none else s.get? camera' number' := by
  unfold get?
  cases hk : Key.ofRaw camera' number' with
  | error f => simp
  | ok k =>
    have hi := Key.ofRaw_eq_ok_iff_of_ok hk camera number
    rw [Key.ofRaw_eq_ok_iff] at hi
    simp only [find?_remove, hi, @eq_comm _ camera', @eq_comm _ number']

theorem get?_clear (s : Store P) (camera camera' : String) (number : Int64) :
    (s.clear camera).1.get? camera' number =
      if camera' = camera then none else s.get? camera' number := by
  unfold get?
  cases hk : Key.ofRaw camera' number with
  | error f => simp
  | ok k =>
    simp only [find?_clear, ← (Key.ofRaw_eq_ok_iff.1 hk).1, eq_comm]

theorem knowsText_put {s : Store P} {e : Entry P} {camera : String} (h : camera = e.camera.text)
    (camera' : String) :
    (s.put e).knowsText camera' = (decide (camera' = camera) || s.knowsText camera') := by
  unfold knowsText
  cases hc : CameraId.ofString? camera' with
  | none =>
    have hne : camera' ≠ camera := by
      rw [CameraId.ofString?_eq_none_iff.1 hc, h]
      exact e.camera.text_ne.symm
    simp [hne]
  | some c =>
    cases CameraId.ofString?_eq_some_iff.1 hc
    simp only [Option.any_some, knows_put, CameraId.ext_iff, h]

theorem knowsText_remove (s : Store P) (camera camera' : String) (number : Int64) :
    (s.remove camera number).knowsText camera' = s.knowsText camera' := by
  have h : (s.remove camera number).knows = s.knows := funext (s.knows_remove camera number)
  rw [knowsText, h, knowsText]

theorem knowsText_clear (s : Store P) (camera camera' : String) :
    (s.clear camera).1.knowsText camera' = (!decide (camera' = camera) && s.knowsText camera') := by
  unfold knowsText
  cases hc : CameraId.ofString? camera' with
  | none => simp
  | some c =>
    cases CameraId.ofString?_eq_some_iff.1 hc
    simp only [Option.any_some, knows_clear, eq_comm]

theorem mem_counts {s : Store P} {c : CameraId} {n : Nat} :
    (c, n) ∈ s.counts ↔ s.knows c = true ∧ n = s.count c.text := by
  have hshard : ∀ shard, (c, shard) ∈ s.shards.toList ↔ s.shards[c]? = some shard :=
    fun shard => Std.ExtTreeMap.mem_toList_iff_getElem?_eq_some
  unfold counts
  rw [List.mem_filterMap]
  constructor
  · intro hh
    obtain ⟨⟨c', shard⟩, hm, he⟩ := hh
    obtain ⟨n', hn, he⟩ := Option.map_eq_some_iff.1 he
    cases he
    have hs := (hshard shard).1 hm
    have hl : shard.liveSize? = some shard.size := if_neg (by simp [(s.serves c shard hs).live])
    rw [hl] at hn
    cases hn
    simp [knows_eq_isSome, count, hs]
  · intro hh
    obtain ⟨hk, rfl⟩ := hh
    rw [knows_eq_isSome] at hk
    obtain ⟨shard, hs⟩ := Option.isSome_iff_exists.1 hk
    have hl : shard.liveSize? = some shard.size := if_neg (by simp [(s.serves c shard hs).live])
    exact ⟨(c, shard), (hshard shard).2 hs, by simp [hl, count, hs]⟩

theorem mem_census {s : Store P} {p : String × Nat} :
    p ∈ s.census.pairs ↔ s.knowsText p.1 = true ∧ p.2 = s.count p.1 := by
  obtain ⟨camera, n⟩ := p
  have hp : (camera, n) ∈ s.census.pairs ↔ ∃ c : CameraId, (c, n) ∈ s.counts ∧ c.text = camera := by
    simp [census]
  rw [hp, knowsText]
  constructor
  · intro hh
    obtain ⟨c, hc, rfl⟩ := hh
    rw [CameraId.ofString?_text]
    exact mem_counts.1 hc
  · intro hh
    obtain ⟨hk, hn⟩ := hh
    dsimp only at hk hn
    cases hc : CameraId.ofString? camera with
    | none =>
      rw [hc] at hk
      cases hk
    | some c =>
      rw [hc] at hk
      cases CameraId.ofString?_eq_some_iff.1 hc
      exact ⟨c, mem_counts.2 ⟨hk, hn⟩, rfl⟩

theorem mem_getByCamera_iff_get? {s : Store P} (hs : Stack.Named s) {camera : String}
    {e : Entry P} :
    e ∈ s.getByCamera camera ↔
      ∃ number, e.track.toRaw? = some number ∧ s.get? camera number = some e := by
  rw [mem_getByCamera]
  constructor
  · intro hh
    obtain ⟨rfl, he⟩ := hh
    obtain ⟨number, hn⟩ := hs e.key e he
    exact ⟨number, hn, get?_eq_some_iff.2 ⟨Key.ofRaw_of_toRaw? (k := e.key) hn, he⟩⟩
  · intro hh
    obtain ⟨number, hn, he⟩ := hh
    obtain ⟨hk, hf⟩ := get?_eq_some_iff.1 he
    exact ⟨(Key.ofRaw_eq_ok_iff.1 hk).1, hf⟩

theorem nodup_getByCamera (s : Store P) (camera : String) :
    ((s.getByCamera camera).map (·.track)).Nodup := by
  unfold getByCamera
  cases CameraId.ofString? camera with
  | none => exact List.nodup_nil
  | some c => exact s.nodup_tracks_entriesOf c

end Store

/-! ### Flat stores -/

/-- The payloads of the known cameras. -/
abbrev FlatStore (P : Type) := Finmap fun _ : String => Finmap fun _ : Int64 => P

abbrev Spelled (P : Type) := String × Option Int64 × P

def Entry.spelled (e : Entry P) : Spelled P := (e.camera.text, e.track.toRaw?, e.payload)

/-- An answer with nothing left of the order in which it lists. -/
inductive FlatAnswer (P : Type) where
  | done
  | refused (fault : KeyError)
  | entry (e : Option (Spelled P))
  | entries (l : Multiset (Spelled P))
  | number (n : Nat)
  | census (l : Multiset (String × Nat))
  | expired (l : Multiset (Spelled P × Reason))

def Answer.flat : Answer P → FlatAnswer P
  | .done => .done
  | .refused e => .refused e
  | .entry e => .entry (e.map Entry.spelled)
  | .entries l => .entries (l.map Entry.spelled)
  | .number n => .number n
  | .census c => .census c.pairs
  | .expired l => .expired (l.map fun x => (x.entry.spelled, x.reason))

namespace FlatStore

def tracks (m : FlatStore P) (camera : String) : Finmap fun _ : Int64 => P :=
  (m.lookup camera).getD ∅

def upsert (m : FlatStore P) (camera : String) (number : Int64) (payload : P) : FlatStore P :=
  m.insert camera ((m.tracks camera).insert number payload)

def remove (m : FlatStore P) (camera : String) (number : Int64) : FlatStore P :=
  match m.lookup camera with
  | some tracks => m.insert camera (tracks.erase number)
  | none => m

/-- Makes a call. There are no layers to sweep. -/
def call (m : FlatStore P) : Call P → FlatStore P × FlatAnswer P
  | .register r =>
    if r.camera = "" then (m, .refused .emptyCamera)
    else if r.number < 0 then (m, .refused (.negativeTrack r.number))
    else (m.upsert r.camera r.number r.payload, .done)
  | .get camera number =>
    (m, .entry (((m.tracks camera).lookup number).map fun payload => (camera, some number, payload)))
  | .getByCamera camera =>
    (m, .entries ((m.tracks camera).entries.map fun x => (camera, some x.1, x.2)))
  | .remove camera number => (m.remove camera number, .done)
  | .clear camera => (m.erase camera, .done)
  | .count camera => (m, .number (m.tracks camera).entries.card)
  | .census => (m, .census (m.entries.map fun x => (x.1, x.2.entries.card)))
  | .sweep | .sweepPart _ _ => (m, .expired 0)
  | .setClock _ | .arm _ => (m, .done)

def answers (m : FlatStore P) : List (Call P) → List (FlatAnswer P)
  | [] => []
  | c :: calls => (m.call c).2 :: answers (m.call c).1 calls

/-! ### What the calls do to the tracks -/

theorem tracks_insert (m : FlatStore P) (camera camera' : String) (t : Finmap fun _ : Int64 => P) :
    tracks (m.insert camera t) camera' = if camera' = camera then t else m.tracks camera' := by
  unfold tracks
  by_cases h : camera' = camera
  · subst h
    rw [Finmap.lookup_insert, if_pos rfl]
    rfl
  · rw [Finmap.lookup_insert_of_ne _ h, if_neg h]

theorem lookup_upsert (m : FlatStore P) (camera camera' : String) (number number' : Int64)
    (payload : P) :
    ((m.upsert camera number payload).tracks camera').lookup number' =
      if camera' = camera ∧ number' = number then some payload
      else (m.tracks camera').lookup number' := by
  unfold upsert
  rw [tracks_insert]
  by_cases hc : camera' = camera
  · subst hc
    by_cases hn : number' = number
    · subst hn
      simp
    · simp [hn, Finmap.lookup_insert_of_ne]
  · simp [hc]

theorem lookup_remove (m : FlatStore P) (camera camera' : String) (number number' : Int64) :
    ((m.remove camera number).tracks camera').lookup number' =
      if camera' = camera ∧ number' = number then none else (m.tracks camera').lookup number' := by
  unfold remove
  cases hl : m.lookup camera with
  | none =>
    by_cases hc : camera' = camera
    · subst hc
      simp [tracks, hl]
    · simp [hc]
  | some t =>
    have ht : m.tracks camera = t := by rw [tracks, hl]; rfl
    dsimp only
    rw [tracks_insert]
    by_cases hc : camera' = camera
    · subst hc
      by_cases hn : number' = number
      · subst hn
        simp
      · simp [hn, ht, Finmap.lookup_erase_ne]
    · simp [hc]

theorem lookup_erase (m : FlatStore P) (camera camera' : String) (number : Int64) :
    (tracks (m.erase camera) camera').lookup number =
      if camera' = camera then none else (m.tracks camera').lookup number := by
  unfold tracks
  by_cases hc : camera' = camera
  · subst hc
    simp
  · simp [hc, Finmap.lookup_erase_ne]

theorem isSome_lookup_insert (m : FlatStore P) (camera camera' : String)
    (t : Finmap fun _ : Int64 => P) :
    ((m.insert camera t).lookup camera').isSome =
      (decide (camera' = camera) || (m.lookup camera').isSome) := by
  by_cases hc : camera' = camera
  · subst hc
    simp
  · simp [hc, Finmap.lookup_insert_of_ne]

theorem isSome_lookup_remove (m : FlatStore P) (camera camera' : String) (number : Int64) :
    ((m.remove camera number).lookup camera').isSome = (m.lookup camera').isSome := by
  unfold remove
  cases hl : m.lookup camera with
  | none => rfl
  | some t =>
    dsimp only
    rw [isSome_lookup_insert]
    by_cases hc : camera' = camera
    · subst hc
      simp [hl]
    · simp [hc]

theorem isSome_lookup_erase (m : FlatStore P) (camera camera' : String) :
    ((m.erase camera).lookup camera').isSome =
      (!decide (camera' = camera) && (m.lookup camera').isSome) := by
  by_cases hc : camera' = camera
  · subst hc
    simp
  · simp [hc, Finmap.lookup_erase_ne]

end FlatStore

/-! ### Agreement -/

structure Store.Agrees (s : Store P) (m : FlatStore P) : Prop where
  payload : ∀ camera number,
    (s.get? camera number).map (·.payload) = (m.tracks camera).lookup number
  known : ∀ camera, s.knowsText camera = (m.lookup camera).isSome
  named : Stack.Named s

namespace Store.Agrees

variable {s : Store P} {m : FlatStore P}

theorem empty : (∅ : Store P).Agrees ∅ where
  payload camera number := by
    simp only [Store.get?, FlatStore.tracks, Finmap.lookup_empty]
    cases Key.ofRaw camera number <;> simp
  known camera := by
    simp only [Store.knowsText, Finmap.lookup_empty]
    cases CameraId.ofString? camera <;> simp
  named k e h := by
    rw [Store.find?_empty] at h
    cases h

theorem put (h : s.Agrees m) {camera : String} {number : Int64} {k : Key}
    (hk : Key.ofRaw camera number = .ok k) (payload : P) :
    (s.put (k.entry payload)).Agrees (m.upsert camera number payload) where
  payload camera' number' := by
    rw [Store.get?_put (e := k.entry payload) hk, FlatStore.lookup_upsert, ← h.payload]
    split <;> rfl
  known camera' := by
    rw [Store.knowsText_put (e := k.entry payload) (Key.ofRaw_eq_ok_iff.1 hk).1, h.known,
      FlatStore.upsert, FlatStore.isSome_lookup_insert]
  named := Stack.named_put h.named (e := k.entry payload) hk

theorem remove (h : s.Agrees m) (camera : String) (number : Int64) :
    (s.remove camera number).Agrees (m.remove camera number) where
  payload camera' number' := by
    rw [Store.get?_remove, FlatStore.lookup_remove, ← h.payload]
    split <;> rfl
  known camera' := by
    rw [Store.knowsText_remove, h.known, FlatStore.isSome_lookup_remove]
  named := by
    rw [Store.remove_eq_without]
    exact Stack.named_without h.named _

theorem clear (h : s.Agrees m) (camera : String) : (s.clear camera).1.Agrees (m.erase camera) where
  payload camera' number' := by
    rw [Store.get?_clear, FlatStore.lookup_erase, ← h.payload]
    split <;> rfl
  known camera' := by
    rw [Store.knowsText_clear, h.known, FlatStore.isSome_lookup_erase]
  named := Stack.named_clear h.named camera

/-! ### Lists -/

theorem nodup_spelled (h : s.Agrees m) (camera : String) :
    ((s.getByCamera camera).map Entry.spelled).Nodup := by
  apply List.Nodup.map_on
  · intro e he e' he' heq
    obtain ⟨number, hn, -⟩ := (Store.mem_getByCamera_iff_get? h.named).1 he
    obtain ⟨hc, hr⟩ := Prod.mk.inj heq
    obtain ⟨ht, hp⟩ := Prod.mk.inj hr
    have hn' : e'.track.toRaw? = some number := ht ▸ hn
    have htrack : some e.track = some e'.track :=
      (TrackId.toRaw?_eq_some_iff.1 hn).symm.trans (TrackId.toRaw?_eq_some_iff.1 hn')
    cases e
    cases e'
    simp only [Entry.mk.injEq]
    exact ⟨CameraId.ext hc, Option.some.inj htrack, hp⟩
  · exact List.Nodup.of_map _ (s.nodup_getByCamera camera)

theorem getByCamera (h : s.Agrees m) (camera : String) :
    (((s.getByCamera camera).map Entry.spelled : List (Spelled P)) : Multiset (Spelled P)) =
      (m.tracks camera).entries.map fun x => (camera, some x.1, x.2) := by
  have hinj : Function.Injective fun x : (_ : Int64) × P => (camera, some x.1, x.2) := by
    rintro ⟨a, b⟩ ⟨a', b'⟩ heq
    simpa using heq
  rw [Multiset.Nodup.ext (Multiset.coe_nodup.2 (h.nodup_spelled camera))
    ((m.tracks camera).nodup_entries.map hinj)]
  intro v
  rw [Multiset.mem_coe, List.mem_map, Multiset.mem_map]
  constructor
  · intro hh
    obtain ⟨e, he, rfl⟩ := hh
    obtain ⟨number, hn, hg⟩ := (Store.mem_getByCamera_iff_get? h.named).1 he
    have hl : (m.tracks camera).lookup number = some e.payload := by
      rw [← h.payload, hg]
      rfl
    refine ⟨⟨number, e.payload⟩, Finmap.lookup_eq_some_iff.1 hl, ?_⟩
    simp only [Entry.spelled, hn, (Store.mem_getByCamera.1 he).1]
  · intro hh
    obtain ⟨⟨number, payload⟩, hx, rfl⟩ := hh
    have hl := Finmap.lookup_eq_some_iff.2 hx
    rw [← h.payload] at hl
    obtain ⟨e, he, rfl⟩ := Option.map_eq_some_iff.1 hl
    obtain ⟨hc, ht⟩ := Key.ofRaw_eq_ok_iff.1 (Store.get?_eq_some_iff.1 he).1
    have hn := TrackId.toRaw?_eq_some_iff.2 ht
    refine ⟨e, (Store.mem_getByCamera_iff_get? h.named).2 ⟨number, hn, he⟩, ?_⟩
    have hc' : e.camera.text = camera := hc.symm
    have hn' : e.track.toRaw? = some number := hn
    simp only [Entry.spelled, hn', hc']

theorem count (h : s.Agrees m) (camera : String) :
    s.count camera = (m.tracks camera).entries.card := by
  have hc := congrArg Multiset.card (h.getByCamera camera)
  rw [Multiset.coe_card, List.length_map, Multiset.card_map] at hc
  exact (s.count_eq_length camera).trans hc

theorem census (h : s.Agrees m) :
    (s.census.pairs : Multiset (String × Nat)) = m.entries.map fun x => (x.1, x.2.entries.card) := by
  have hkeys : (m.entries.map fun x => (x.1, x.2.entries.card)).Nodup := by
    apply Multiset.Nodup.of_map Prod.fst
    rw [Multiset.map_map]
    exact m.nodupKeys.nodup_keys
  have hpairs : s.census.pairs.Nodup := List.Nodup.of_map _ s.census.distinct
  rw [Multiset.Nodup.ext (Multiset.coe_nodup.2 hpairs) hkeys]
  intro hh
  obtain ⟨camera, n⟩ := hh
  rw [Multiset.mem_coe, Store.mem_census, Multiset.mem_map, h.known, h.count]
  constructor
  · intro hh
    obtain ⟨hk, hn⟩ := hh
    dsimp only at hk hn
    obtain ⟨t, ht⟩ := Option.isSome_iff_exists.1 hk
    refine ⟨⟨camera, t⟩, Finmap.lookup_eq_some_iff.1 ht, ?_⟩
    rw [hn]
    simp only [FlatStore.tracks, ht, Option.getD_some]
  · intro hh
    obtain ⟨⟨camera', t⟩, hx, heq⟩ := hh
    have ht := Finmap.lookup_eq_some_iff.2 hx
    cases heq
    simp [FlatStore.tracks, ht]

end Store.Agrees

/-! ### Calls -/

namespace Stack

theorem agrees_call {s : Stack P} {m : FlatStore P} (h : s.base.Agrees m) (w : Walk)
    (sharing : Sharing) (c : Call P) :
    (s.call w sharing 0 c).2.flat = (m.call c).2 ∧
      (s.call w sharing 0 c).1.base.Agrees (m.call c).1 := by
  cases c with
  | register r =>
    cases hk : Key.ofRaw r.camera r.number with
    | error e =>
      simp only [call, registerAt_of_error hk, FlatStore.call]
      rcases Key.ofRaw_eq_error_iff.1 hk with ⟨hc, rfl⟩ | ⟨hc, hn, rfl⟩
      · rw [if_pos hc]
        exact ⟨rfl, h⟩
      · rw [if_neg hc, if_pos hn]
        exact ⟨rfl, h⟩
    | ok key =>
      obtain ⟨hc, ht⟩ := Key.ofRaw_eq_ok_iff.1 hk
      have hne : ¬ r.camera = "" := by
        rw [hc]
        exact key.camera.text_ne
      have hn : ¬ r.number < 0 := by
        rw [← TrackId.ofRaw?_eq_none_iff, ht]
        exact Option.some_ne_none _
      simp only [call, registerAt_of_ok hk, FlatStore.call, if_neg hne, if_neg hn]
      exact ⟨rfl, h.put hk r.payload⟩
  | get camera number =>
    refine ⟨?_, h⟩
    simp only [call, FlatStore.call, Answer.flat, get?, ← h.payload, Option.map_map]
    cases hg : s.base.get? camera number with
    | none => rfl
    | some e =>
      obtain ⟨hc, ht⟩ := Key.ofRaw_eq_ok_iff.1 (Store.get?_eq_some_iff.1 hg).1
      have hn : e.track.toRaw? = some number := TrackId.toRaw?_eq_some_iff.2 ht
      have hc' : e.camera.text = camera := hc.symm
      simp only [Option.map_some, Function.comp_apply, Entry.spelled, hn, hc']
  | getByCamera camera => exact ⟨congrArg FlatAnswer.entries (h.getByCamera camera), h⟩
  | remove camera number => exact ⟨rfl, h.remove camera number⟩
  | clear camera => exact ⟨rfl, h.clear camera⟩
  | count camera => exact ⟨congrArg FlatAnswer.number (h.count camera), h⟩
  | census => exact ⟨congrArg FlatAnswer.census h.census, h⟩
  | sweep | sweepPart => exact ⟨rfl, h⟩
  | setClock now => exact ⟨rfl, h⟩
  | arm r => exact ⟨rfl, h⟩

def answers (s : Stack P) : List (Step P) → List (Answer P)
  | [] => []
  | st :: steps => (s.call st.walk st.sharing st.number st.call).2 :: answers (s.step st) steps

theorem answers_of_agrees {s : Stack P} {m : FlatStore P} (h : s.base.Agrees m)
    (calls : List (Call P)) :
    (s.answers (calls.map (.plain 0))).map Answer.flat = m.answers calls := by
  induction calls generalizing s m with
  | nil => rfl
  | cons c calls ih =>
    obtain ⟨ha, hc⟩ := agrees_call h .ascending .byName c
    simp only [List.map_cons, answers, FlatStore.answers]
    exact List.cons_eq_cons.2 ⟨ha, ih hc⟩

/-- Whatever is called on a store, it answers as the flat store does. Its lists have no track twice,
and its counts are their lengths. -/
theorem answers_eq_flat (policies : List Policy) (calls : List (Call P)) :
    ((ofPolicies policies : Stack P).answers (calls.map (.plain 0))).map Answer.flat =
        FlatStore.answers ∅ calls ∧
      ∀ camera,
        let s := (ofPolicies policies : Stack P).run (calls.map (.plain 0))
        ((s.getByCamera camera).map (·.track)).Nodup ∧
          s.count camera = (s.getByCamera camera).length :=
  ⟨answers_of_agrees Store.Agrees.empty calls, fun camera =>
    ⟨Store.nodup_getByCamera _ camera, Store.count_eq_length _ camera⟩⟩

end Stack

end LiveTracks
