import LiveTracks.Proofs.BulkDrop

/-!
# What stores list, once each

A store lists every known camera and every entry of a camera exactly once, and dropping tracks of
other cameras does not change what it lists of a camera. The last section is about lists in which one place
changes.
-/

namespace LiveTracks

namespace Store

variable {P : Type}

theorem nodup_cameras (s : Store P) : s.cameras.Nodup := s.shards.nodup_keys

/-- The entries of a shard in use stand under their own tracks, so the tracks of its list are the
keys of its map. -/
theorem tracks_entries {shard : Shard P} {c : CameraId} (hs : shard.Serves c) :
    shard.entries.map (·.track) = shard.tracks.keys := by
  have hk : shard.tracks.keys = shard.tracks.toList.map Prod.fst :=
    Std.ExtTreeMap.map_fst_toList_eq_keys.symm
  rw [hk, Shard.entries, List.map_map]
  apply List.map_congr_left
  intro p hp
  have he : shard.get? p.1 = some p.2 := Std.ExtTreeMap.mem_toList_iff_getElem?_eq_some.1 hp
  exact (hs.placed p.1 p.2 he).2

theorem nodup_tracks_entriesOf (s : Store P) (c : CameraId) :
    ((s.entriesOf c).map (·.track)).Nodup := by
  unfold entriesOf
  cases hs : s.shards[c]? with
  | none => exact List.nodup_nil
  | some shard =>
    simp only [Option.map_some, Option.getD_some, tracks_entries (s.serves c shard hs)]
    exact shard.tracks.nodup_keys

theorem nodup_entriesOf (s : Store P) (c : CameraId) : ((s.entriesOf c).map (·.key)).Nodup := by
  have ht := s.nodup_tracks_entriesOf c
  have hk : (s.entriesOf c).map (·.track) = ((s.entriesOf c).map (·.key)).map (·.track) := by
    rw [List.map_map]
    rfl
  rw [hk] at ht
  exact List.Pairwise.of_map (·.track) (fun a b hab hk => hab (congrArg _ hk)) ht

theorem camera_of_mem_entriesOf {s : Store P} {c : CameraId} {e : Entry P}
    (h : e ∈ s.entriesOf c) : e.camera = c :=
  (mem_entriesOf.1 h).1

theorem mem_keys_entriesOf {s : Store P} {c : CameraId} {k : Key} :
    k ∈ (s.entriesOf c).map (·.key) ↔ k.camera = c ∧ (s.find? k).isSome = true := by
  rw [List.mem_map]
  constructor
  · intro hh
    obtain ⟨e, he, rfl⟩ := hh
    obtain ⟨hc, hf⟩ := mem_entriesOf.1 he
    exact ⟨hc, by rw [hf]; rfl⟩
  · intro hh
    obtain ⟨rfl, hk⟩ := hh
    obtain ⟨e, he⟩ := Option.isSome_iff_exists.1 hk
    have hek := key_of_find? he
    subst hek
    exact ⟨e, mem_entriesOf.2 ⟨rfl, he⟩, rfl⟩

theorem entriesOf_without {s : Store P} {gone : Key → Bool} {c : CameraId}
    (h : ∀ t, gone ⟨c, t⟩ = false) : (s.without gone).entriesOf c = s.entriesOf c := by
  unfold entriesOf without
  simp only [Std.ExtTreeMap.getElem?_map, Option.map_map]
  cases s.shards[c]? with
  | none => rfl
  | some shard =>
    have hs : (shard.without fun t => gone ⟨c, t⟩) = shard := by
      apply Shard.ext
      · intro t
        rw [Shard.get?_without, h t]
        rfl
      · rfl
    simp only [Option.map_some, Function.comp_apply, hs]

end Store

/-! ### Places in a list -/

theorem getElem?_set_cases {α : Type} {l : List α} {a b : α} {i j : Nat} (h : (l.set i a)[j]? = some b) :
    (j = i ∧ b = a) ∨ (j ≠ i ∧ l[j]? = some b) := by
  by_cases hij : i = j
  · subst hij
    have hlt : i < l.length := by
      have hlen := (List.getElem?_eq_some_iff.1 h).1
      rwa [List.length_set] at hlen
    rw [List.getElem?_set_self hlt] at h
    exact .inl ⟨rfl, (Option.some.inj h).symm⟩
  · rw [List.getElem?_set_ne hij] at h
    exact .inr ⟨Ne.symm hij, h⟩

theorem getElem?_concat_cases {α : Type} {l : List α} {a b : α} {i : Nat} (h : (l ++ [a])[i]? = some b) :
    l[i]? = some b ∨ i = l.length ∧ b = a := by
  rcases Nat.lt_or_ge i l.length with hi | hi
  · exact .inl ((List.getElem?_append_left hi).symm.trans h)
  · obtain ⟨hlt, hb⟩ := List.getElem?_eq_some_iff.1 h
    rw [List.length_append, List.length_singleton] at hlt
    obtain rfl : i = l.length := by omega
    exact .inr ⟨rfl, by simpa using hb.symm⟩

theorem getElem?_concat_of_some {α : Type} {l : List α} {a b : α} {i : Nat} (h : l[i]? = some b) :
    (l ++ [a])[i]? = some b :=
  (List.getElem?_append_left (List.getElem?_eq_some_iff.1 h).1).trans h

section Lists

variable {α β : Type} {l : List α} {i : Nat} {a a' : α} {f : α → List β} {new : List β}

theorem exists_eq_append_of_getElem? (h : l[i]? = some a) (a' : α) :
    ∃ first last, l = first ++ a :: last ∧ first.length = i ∧ l.set i a' = first ++ a' :: last := by
  obtain ⟨hlt, rfl⟩ := List.getElem?_eq_some_iff.1 h
  exact List.exists_of_set hlt

/-- If one place of a list of lists grows, the whole grows by as much. -/
theorem perm_flatMap_set (h : l[i]? = some a) (hf : (f a').Perm (f a ++ new)) :
    ((l.set i a').flatMap f).Perm (l.flatMap f ++ new) := by
  obtain ⟨first, last, rfl, -, hset⟩ := exists_eq_append_of_getElem? h a'
  have hrest : (f a' ++ last.flatMap f).Perm (f a ++ (last.flatMap f ++ new)) := by
    refine (hf.append_right _).trans ?_
    rw [List.append_assoc]
    exact List.perm_append_comm.append_left _
  rw [hset]
  simp only [List.flatMap_append, List.flatMap_cons, List.append_assoc]
  exact hrest.append_left _

/-- And it grows at its end, as far as the other places have nothing of the kind. -/
theorem filter_flatMap_set (h : l[i]? = some a) (hf : f a' = f a ++ new) (p : β → Bool)
    (hother : new.filter p ≠ [] → ∀ j b, j ≠ i → l[j]? = some b → (f b).filter p = []) :
    ((l.set i a').flatMap f).filter p = (l.flatMap f ++ new).filter p := by
  obtain ⟨first, last, rfl, hi, hset⟩ := exists_eq_append_of_getElem? h a'
  have hlast : new.filter p ≠ [] → (last.flatMap f).filter p = [] := by
    intro hnew
    rw [List.filter_flatMap, List.flatMap_eq_nil_iff]
    intro b hb
    obtain ⟨j, hj⟩ := List.getElem?_of_mem hb
    refine hother hnew (i + 1 + j) b (by omega) ?_
    have hsub : i + 1 + j - first.length = j + 1 := by omega
    rw [List.getElem?_append_right (by omega), hsub, List.getElem?_cons_succ, hj]
  rw [hset]
  simp only [List.flatMap_append, List.flatMap_cons, List.filter_append, hf, List.append_assoc]
  by_cases hnew : new.filter p = []
  · rw [hnew, List.append_nil, List.nil_append]
  · rw [hlast hnew, List.append_nil, List.nil_append]

end Lists

end LiveTracks
