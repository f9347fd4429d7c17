import LiveTracks.Proofs.Listing
import LiveTracks.Proofs.Run

/-!
# A sweep drops what has expired, and nothing else

Without an armed report the visits of a sweep do not disturb one another: what is left after some of
them is the stack without the expired ones among the keys visited (`sweptOf`), whatever the order was.
A whole sweep has visited the key of every row, so it is the dropping of exactly those keys whose row
has passed a limit (`sweepWhere_of_unarmed`, `sweep_exact`).
-/

namespace LiveTracks

variable {P : Type}

def Expired.event (x : Expired P) : Event := .expired x.entry.key x.reason

namespace Stack

def verdict? (s : Stack P) (k : Nat) (key : Key) : Option Reason :=
  (s.layer? k).bind fun l => (l.rows.find? key).bind fun row => l.policy.evaluate row.payload s.clock

def expired? (s : Stack P) (k : Nat) (key : Key) : Option (Expired P) :=
  (s.verdict? k key).bind fun reason => (s.base.find? key).map fun entry => ⟨entry, reason⟩

theorem verdict?_eq_bind_row? {s : Stack P} {k : Nat} {l : Layer} (hl : s.layer? k = some l)
    (key : Key) : s.verdict? k key = (s.row? k key).bind (l.policy.evaluate · s.clock) := by
  unfold verdict? row?
  rw [hl]
  cases hrow : l.rows.find? key <;> simp [hrow]

theorem verdict?_logs (s : Stack P) (events : List Event) (k : Nat) (key : Key) :
    (s.logs events).verdict? k key = s.verdict? k key := by
  simp only [verdict?, layer?_logs, clock_logs]

theorem expired?_eq_some_iff {s : Stack P} {k : Nat} {key : Key} {x : Expired P} :
    s.expired? k key = some x ↔
      x.entry.key = key ∧ s.base.find? key = some x.entry ∧ s.verdict? k key = some x.reason := by
  unfold expired?
  constructor
  · intro h
    obtain ⟨reason, hr, hx⟩ := Option.bind_eq_some_iff.1 h
    obtain ⟨entry, he, rfl⟩ := Option.map_eq_some_iff.1 hx
    exact ⟨Store.key_of_find? he, he, hr⟩
  · intro hh
    obtain ⟨-, he, hr⟩ := hh
    rw [hr, he]
    rfl

theorem isSome_row?_of_verdict? {s : Stack P} {k : Nat} {key : Key}
    (h : (s.verdict? k key).isSome = true) :
    ∃ l row, s.layer? k = some l ∧ l.rows.find? key = some row := by
  obtain ⟨reason, hr⟩ := Option.isSome_iff_exists.1 h
  obtain ⟨l, hl, hr⟩ := Option.bind_eq_some_iff.1 hr
  obtain ⟨row, hrow, -⟩ := Option.bind_eq_some_iff.1 hr
  exact ⟨l, row, hl, hrow⟩

/-! ### Visits -/

/-- What is left, and what is reported, once a sweep of layer `k` has visited these keys. -/
def sweptOf (s : Stack P) (k : Nat) (keys : List Key) : Stack P × List (Expired P) :=
  let found := keys.filterMap (s.expired? k)
  ((s.without k fun key => keys.contains key && (s.verdict? k key).isSome).logs
    (found.map Expired.event), found)

theorem sweptOf_nil (s : Stack P) (k : Nat) : s.sweptOf k [] = (s, []) := by
  have hs : s.without k (fun key => [].contains key && (s.verdict? k key).isSome) = s := by
    apply without_eq_self <;> simp
  simp only [sweptOf, hs, List.filterMap_nil, List.map_nil, logs_nil]

theorem clock_sweptOf (s : Stack P) (k : Nat) (keys : List Key) :
    (s.sweptOf k keys).1.clock = s.clock := by
  rw [sweptOf, clock_logs, clock_without]

theorem armed_sweptOf (s : Stack P) (k : Nat) (keys : List Key) :
    (s.sweptOf k keys).1.armed = s.armed := by
  rw [sweptOf, armed_logs, armed_without]

theorem layer?_sweptOf (s : Stack P) (k : Nat) (keys : List Key) (j : Nat) :
    (s.sweptOf k keys).1.layer? j =
      (s.layer? j).map fun l =>
        if j ≤ k then l.without fun key => keys.contains key && (s.verdict? k key).isSome else l := by
  simp only [sweptOf, layer?_logs, layer?_without]

theorem find?_sweptOf {s : Stack P} {k : Nat} {keys : List Key} {key : Key} (h : key ∉ keys) :
    (s.sweptOf k keys).1.base.find? key = s.base.find? key := by
  simp only [sweptOf, base_logs, base_without, Store.find?_without]
  simp [h]

theorem sweptOf_append_none {s : Stack P} {k : Nat} {keys : List Key} {key : Key}
    (h : s.verdict? k key = none) : s.sweptOf k (keys ++ [key]) = s.sweptOf k keys := by
  have ht : (fun key' => (keys ++ [key]).contains key' && (s.verdict? k key').isSome) =
      fun key' => keys.contains key' && (s.verdict? k key').isSome := by
    funext key'
    by_cases hk : key' = key
    · subst hk
      simp [h]
    · simp [hk]
  have hf : (keys ++ [key]).filterMap (s.expired? k) = keys.filterMap (s.expired? k) := by
    simp [List.filterMap_append, expired?, h]
  simp only [sweptOf, ht, hf]

theorem sweptOf_append_some {s : Stack P} {k : Nat} {keys : List Key} {key : Key}
    (h : (s.verdict? k key).isSome = true) :
    s.sweptOf k (keys ++ [key]) =
      (((s.sweptOf k keys).1.without k (· == key)).logs
        ((s.expired? k key).toList.map Expired.event),
        (s.sweptOf k keys).2 ++ (s.expired? k key).toList) := by
  have ht : (fun key' => (keys ++ [key]).contains key' && (s.verdict? k key').isSome) =
      fun key' => (keys.contains key' && (s.verdict? k key').isSome) || key' == key := by
    funext key'
    by_cases hk : key' = key
    · subst hk
      simp [h]
    · simp [hk]
  have hf : (keys ++ [key]).filterMap (s.expired? k) =
      keys.filterMap (s.expired? k) ++ (s.expired? k key).toList := by
    cases he : s.expired? k key <;> simp [List.filterMap_append, he]
  have hw := without_without s k
    (fun key' => keys.contains key' && (s.verdict? k key').isSome) (· == key)
  simp only [sweptOf, ht, hf, ← hw, List.map_append]
  simp only [logs, without, List.append_assoc]

theorem visitRow_eq {acc : Stack P × List (Expired P)} {k : Nat} {l : Layer}
    (hl : acc.1.layer? k = some l) {row : Entry Lifetime} {number : Int64}
    (hn : row.track.toRaw? = some number) :
    visitRow k l.policy acc.1.clock row.camera acc row =
      match acc.1.verdict? k row.key with
      | none => acc
      | some reason =>
        let s := acc.1.removeAt k row.camera.text number
        match acc.1.base.find? row.key with
        | none => (s, acc.2)
        | some entry => (s.logs [.expired row.key reason], acc.2 ++ [⟨entry, reason⟩]) := by
  have hk : Key.ofRaw row.camera.text number = .ok row.key := Key.ofRaw_of_toRaw? (k := row.key) hn
  have hget : acc.1.get? row.camera.text number = acc.1.base.find? row.key := by
    simp only [get?, Store.get?, hk]
  unfold visitRow verdict?
  rw [hn, hl]
  simp only [Option.bind_some, Layer.lifetime?_of_ok hk, hget]
  cases l.rows.find? row.key with
  | none => rfl
  | some r =>
    simp only [Option.map_some, Option.bind_some]
    cases l.policy.evaluate r.payload acc.1.clock <;> rfl

theorem verdict?_sweptOf {s : Stack P} {k : Nat} {keys : List Key} {key : Key} (h : key ∉ keys) :
    (s.sweptOf k keys).1.verdict? k key = s.verdict? k key := by
  unfold verdict?
  rw [layer?_sweptOf]
  cases s.layer? k with
  | none => rfl
  | some l =>
    simp only [Option.map_some, Option.bind_some, Nat.le_refl, if_true, Layer.policy_without,
      Layer.rows_without, Store.find?_without]
    simp [h, sweptOf]

theorem visitRow_sweptOf {s : Stack P} (ha : s.armed = none) {k : Nat} {l : Layer}
    (hl : s.layer? k = some l) {keys : List Key} {row : Entry Lifetime} {number : Int64}
    (hnew : row.key ∉ keys) (hn : row.track.toRaw? = some number) :
    visitRow k l.policy s.clock row.camera (s.sweptOf k keys) row =
      s.sweptOf k (keys ++ [row.key]) := by
  have hk : Key.ofRaw row.camera.text number = .ok row.key := Key.ofRaw_of_toRaw? (k := row.key) hn
  have hl' := layer?_sweptOf s k keys k
  rw [hl, Option.map_some, if_pos (Nat.le_refl k)] at hl'
  have hv := visitRow_eq hl' hn
  rw [verdict?_sweptOf hnew, find?_sweptOf hnew, clock_sweptOf, Layer.policy_without] at hv
  rw [hv]
  cases hr : s.verdict? k row.key with
  | none => exact (sweptOf_append_none hr).symm
  | some reason =>
    have hg : Key.isNamed row.camera.text number = (· == row.key) := by
      funext key'
      rw [Bool.eq_iff_iff, Key.isNamed_iff, hk, Except.ok.injEq, beq_iff_eq]
      exact eq_comm
    have hd := removeAt_eq_without ((armed_sweptOf s k keys).trans ha) k row.camera.text number
    rw [sweptOf_append_some (by rw [hr]; rfl), hd, hg]
    cases hb : s.base.find? row.key with
    | none => simp [expired?, hr, hb]
    | some entry =>
      have hek := Store.key_of_find? hb
      simp only [expired?, hr, hb, Option.bind_some, Option.map_some, Option.toList_some,
        List.map_cons, List.map_nil, Expired.event, hek]

theorem foldl_visitRow {s : Stack P} (ha : s.armed = none) {k : Nat} {l : Layer}
    (hl : s.layer? k = some l) (c : CameraId) (rows : List (Entry Lifetime)) (keys : List Key)
    (hc : ∀ row ∈ rows, row.camera = c) (hn : ∀ row ∈ rows, ∃ n, row.track.toRaw? = some n)
    (hd : (keys ++ rows.map (·.key)).Nodup) :
    rows.foldl (visitRow k l.policy s.clock c) (s.sweptOf k keys) =
      s.sweptOf k (keys ++ rows.map (·.key)) := by
  induction rows generalizing keys with
  | nil => simp
  | cons row rows ih =>
    have hcr : row.camera = c := hc row List.mem_cons_self
    obtain ⟨number, hnr⟩ := hn row List.mem_cons_self
    have hsplit : keys ++ (row :: rows).map (·.key) = (keys ++ [row.key]) ++ rows.map (·.key) := by
      simp
    have hnew : row.key ∉ keys := by
      intro hk
      exact (List.nodup_append.1 hd).2.2 row.key hk row.key (by simp) rfl
    rw [hsplit] at hd ⊢
    subst hcr
    rw [List.foldl_cons, visitRow_sweptOf ha hl hnew hnr]
    apply ih
    · exact fun row' h => hc row' (List.mem_cons_of_mem _ h)
    · exact fun row' h => hn row' (List.mem_cons_of_mem _ h)
    · exact hd

/-! ### Cameras -/

def rowKeys (w : Walk) (l : Layer) (c : CameraId) : List Key :=
  (w.rows c (l.rows.entriesOf c)).map (·.key)

theorem mem_rowKeys {w : Walk} {l : Layer} {c : CameraId} {key : Key} :
    key ∈ rowKeys w l c ↔ key.camera = c ∧ (l.rows.find? key).isSome = true := by
  unfold rowKeys
  rw [((w.rows_perm c _).map _).mem_iff, Store.mem_keys_entriesOf]

theorem nodup_rowKeys (w : Walk) (l : Layer) (c : CameraId) : (rowKeys w l c).Nodup :=
  ((w.rows_perm c _).map _).nodup_iff.2 (l.rows.nodup_entriesOf c)

theorem visitCamera_sweptOf {s : Stack P} (ha : s.armed = none) {k : Nat} {l : Layer}
    (hl : s.layer? k = some l) (hn : Named l.rows) (w : Walk) {keys : List Key} {c : CameraId}
    (hc : ∀ key ∈ keys, key.camera ≠ c) (hd : keys.Nodup) :
    visitCamera k w l.policy s.clock (s.sweptOf k keys) c = s.sweptOf k (keys ++ rowKeys w l c) := by
  have hrows : (((s.sweptOf k keys).1.layer? k).map (·.rows.entriesOf c)).getD [] =
      l.rows.entriesOf c := by
    rw [layer?_sweptOf, hl]
    simp only [Option.map_some, Option.getD_some, Nat.le_refl, if_true, Layer.rows_without]
    apply Store.entriesOf_without
    intro t
    have ht : (⟨c, t⟩ : Key) ∉ keys := fun h => hc _ h rfl
    simp [ht]
  unfold visitCamera
  rw [hrows]
  have hmem : ∀ row ∈ w.rows c (l.rows.entriesOf c), row ∈ l.rows.entriesOf c :=
    fun row h => (w.rows_perm c _).mem_iff.1 h
  apply foldl_visitRow ha hl
  · intro row h
    exact Store.camera_of_mem_entriesOf (hmem row h)
  · intro row h
    exact hn row.key row (Store.mem_entriesOf.1 (hmem row h)).2
  · rw [List.nodup_append]
    refine ⟨hd, nodup_rowKeys w l c, ?_⟩
    intro key hk key' hk' heq
    subst heq
    exact hc key hk (mem_rowKeys.1 hk').1

theorem foldl_visitCamera {s : Stack P} (ha : s.armed = none) {k : Nat} {l : Layer}
    (hl : s.layer? k = some l) (hn : Named l.rows) (w : Walk) (cameras : List CameraId)
    (keys : List Key) (hc : ∀ key ∈ keys, key.camera ∉ cameras) (hcd : cameras.Nodup)
    (hd : keys.Nodup) :
    cameras.foldl (visitCamera k w l.policy s.clock) (s.sweptOf k keys) =
      s.sweptOf k (keys ++ cameras.flatMap (rowKeys w l)) := by
  induction cameras generalizing keys with
  | nil => simp
  | cons c cameras ih =>
    obtain ⟨hnc, hcd'⟩ := List.nodup_cons.1 hcd
    have hne : ∀ key ∈ keys, key.camera ≠ c := by
      intro key hk h
      exact hc key hk (h ▸ List.mem_cons_self)
    rw [List.foldl_cons, visitCamera_sweptOf ha hl hn w hne hd, ih]
    · simp
    · intro key hk
      rcases List.mem_append.1 hk with hk | hk
      · exact fun h => hc key hk (List.mem_cons_of_mem _ h)
      · rw [(mem_rowKeys.1 hk).1]
        exact hnc
    · exact hcd'
    · rw [List.nodup_append]
      refine ⟨hd, nodup_rowKeys w l c, ?_⟩
      intro key hk key' hk' heq
      subst heq
      exact hne key hk (mem_rowKeys.1 hk').1

/-! ### Sweeps -/

theorem mem_layers_of_layer? {s : Stack P} {j : Nat} {l : Layer} (h : s.layer? j = some l) :
    l ∈ s.layers := by
  cases j with
  | zero => cases h
  | succ j => exact List.mem_of_getElem? h

theorem keys_filterMap_expired? (s : Stack P) (k : Nat) (keys : List Key) :
    ((keys.filterMap (s.expired? k)).map (·.entry.key)).Sublist keys := by
  induction keys with
  | nil => exact List.Sublist.refl _
  | cons key keys ih =>
    rw [List.filterMap_cons]
    cases he : s.expired? k key with
    | none => exact ih.cons key
    | some x =>
      have hx := (expired?_eq_some_iff.1 he).1
      rw [List.map_cons, hx]
      exact ih.cons_cons key

def visited (w : Walk) (mine : CameraId → Bool) (l : Layer) : List Key :=
  ((w.cameras l.rows.cameras).filter mine).flatMap (rowKeys w l)

theorem mem_visited {w : Walk} {mine : CameraId → Bool} {l : Layer} {key : Key} :
    key ∈ visited w mine l ↔ mine key.camera = true ∧ (l.rows.find? key).isSome = true := by
  unfold visited
  rw [List.mem_flatMap]
  constructor
  · intro hh
    obtain ⟨c, hc, hk⟩ := hh
    obtain ⟨rfl, hr⟩ := mem_rowKeys.1 hk
    exact ⟨(List.mem_filter.1 hc).2, hr⟩
  · intro hh
    obtain ⟨hm, hr⟩ := hh
    obtain ⟨row, hrow⟩ := Option.isSome_iff_exists.1 hr
    refine ⟨key.camera, List.mem_filter.2 ⟨?_, hm⟩, mem_rowKeys.2 ⟨rfl, hr⟩⟩
    rw [(w.cameras_perm _).mem_iff, Store.mem_cameras]
    exact Store.knows_of_find? hrow

theorem nodup_visitedCameras (w : Walk) (mine : CameraId → Bool) (l : Layer) :
    ((w.cameras l.rows.cameras).filter mine).Nodup :=
  ((w.cameras_perm _).nodup_iff.2 l.rows.nodup_cameras).filter _

theorem nodup_visited (w : Walk) (mine : CameraId → Bool) (l : Layer) :
    (visited w mine l).Nodup := by
  unfold visited
  rw [List.nodup_iff_pairwise_ne, List.pairwise_flatMap]
  refine ⟨fun c _ => nodup_rowKeys w l c, (nodup_visitedCameras w mine l).imp ?_⟩
  intro a b hab key ha key' hb heq
  subst heq
  exact hab ((mem_rowKeys.1 ha).1.symm.trans (mem_rowKeys.1 hb).1)

theorem sweepWhere_eq_sweptOf {s : Stack P} (ha : s.armed = none) {k : Nat} {l : Layer}
    (hl : s.layer? k = some l) (hn : Named l.rows) (w : Walk) (mine : CameraId → Bool) :
    s.sweepWhere k w mine = s.sweptOf k (visited w mine l) := by
  unfold sweepWhere
  rw [hl]
  dsimp only
  rw [← sweptOf_nil s k, foldl_visitCamera ha hl hn w]
  · rfl
  · simp
  · exact nodup_visitedCameras w mine l
  · exact List.nodup_nil

theorem sweepWhere_of_unarmed {s : Stack P} (ha : s.armed = none)
    (hn : ∀ l ∈ s.layers, Named l.rows) (k : Nat) (w : Walk) (mine : CameraId → Bool) :
    ∃ found : List (Expired P),
      s.sweepWhere k w mine =
        ((s.without k fun key => mine key.camera && (s.verdict? k key).isSome).logs
          (found.map Expired.event), found) ∧
      (found.map (·.entry.key)).Nodup ∧
      ∀ x, x ∈ found ↔ mine x.entry.camera = true ∧ s.expired? k x.entry.key = some x := by
  cases hl : s.layer? k with
  | none =>
    have hv : ∀ key, s.verdict? k key = none := by
      intro key
      rw [verdict?, hl]
      rfl
    refine ⟨[], ?_, List.nodup_nil, ?_⟩
    · rw [without_eq_self] <;> simp [sweepWhere, hl, hv]
    · simp [expired?, hv]
  | some l =>
    have hrow : ∀ key, (s.verdict? k key).isSome = true → (l.rows.find? key).isSome = true := by
      intro key hv
      obtain ⟨l', row, hl', hr⟩ := isSome_row?_of_verdict? hv
      rw [hl] at hl'
      cases hl'
      rw [hr]
      rfl
    have ht : (fun key => (visited w mine l).contains key && (s.verdict? k key).isSome) =
        fun key => mine key.camera && (s.verdict? k key).isSome := by
      funext key
      rw [Bool.eq_iff_iff]
      simp only [Bool.and_eq_true, List.contains_iff_mem, mem_visited]
      constructor
      · intro hh
        obtain ⟨⟨hm, -⟩, hv⟩ := hh
        exact ⟨hm, hv⟩
      · intro hh
        obtain ⟨hm, hv⟩ := hh
        exact ⟨⟨hm, hrow key hv⟩, hv⟩
    refine ⟨(visited w mine l).filterMap (s.expired? k), ?_, ?_, ?_⟩
    · rw [sweepWhere_eq_sweptOf ha hl (hn l (mem_layers_of_layer? hl)), sweptOf, ht]
    · exact (nodup_visited w mine l).sublist (keys_filterMap_expired? s k _)
    · intro x
      rw [List.mem_filterMap]
      constructor
      · intro hh
        obtain ⟨key, hk, hx⟩ := hh
        have hkey := (expired?_eq_some_iff.1 hx).1
        subst hkey
        exact ⟨(mem_visited.1 hk).1, hx⟩
      · intro hh
        obtain ⟨hm, hx⟩ := hh
        have hv : (s.verdict? k x.entry.key).isSome = true := by
          rw [(expired?_eq_some_iff.1 hx).2.2]
          rfl
        exact ⟨x.entry.key, mem_visited.2 ⟨hm, hrow _ hv⟩, hx⟩

theorem verdict?_without (s : Stack P) (k : Nat) (gone : Key → Bool) (key : Key) :
    (s.without k gone).verdict? k key = if gone key then none else s.verdict? k key := by
  unfold verdict?
  rw [layer?_without]
  cases s.layer? k with
  | none => simp
  | some l =>
    simp only [Option.map_some, Option.bind_some, Nat.le_refl, if_true, Layer.policy_without,
      Layer.rows_without, Store.find?_without, clock_without]
    cases gone key <;> rfl

/-- The only effect of a sweep of layer `k` in `s`, at the reading that the clock of `s` shows. -/
structure ExactSweep (s : Stack P) (k : Nat) (swept : Stack P) (found : List (Expired P)) :
    Prop where
  once : (found.map (·.entry.key)).Nodup
  found_iff : ∀ x, x ∈ found ↔
    s.base.find? x.entry.key = some x.entry ∧ s.verdict? k x.entry.key = some x.reason
  /-- Every key whose row has passed a limit can be named to a removal. -/
  nameable : ∀ key, (s.verdict? k key).isSome = true →
    ∃ number, Key.ofRaw key.camera.text number = .ok key
  /-- Removing just these keys on number `k`, in any order, leads to the same stack. -/
  removals : ∀ pairs : List (String × Int64),
    (∀ key, (s.verdict? k key).isSome = true ↔ ∃ p ∈ pairs, Key.ofRaw p.1 p.2 = .ok key) →
    { swept with log := s.log } = pairs.foldl (fun s p => s.removeAt k p.1 p.2) s
  entries : ∀ key, swept.base.find? key =
    if (s.verdict? k key).isSome then none else s.base.find? key
  cameras : ∀ c, swept.base.knows c = s.base.knows c
  rows : ∀ j key, swept.row? j key =
    if j ≤ k ∧ (s.verdict? k key).isSome then none else s.row? j key
  above : ∀ j, k < j → swept.layer? j = s.layer? j
  logged : swept.log = s.log ++ found.map fun x => .expired x.entry.key x.reason

theorem exactSweep_of_unarmed {s : Stack P} (ha : s.armed = none)
    (hn : ∀ l ∈ s.layers, Named l.rows) (k : Nat) (w : Walk) :
    ExactSweep s k (s.sweep k w).1 (s.sweep k w).2 := by
  obtain ⟨found, hs, hd, hf⟩ := sweepWhere_of_unarmed ha hn k w fun _ => true
  rw [sweep, hs]
  simp only [Bool.true_and]
  refine ⟨hd, ?_, ?_, ?_, ?_, ?_, ?_, ?_, rfl⟩
  · intro x
    rw [hf, expired?_eq_some_iff]
    simp
  · intro key hv
    obtain ⟨l, row, hl, hrow⟩ := isSome_row?_of_verdict? hv
    obtain ⟨number, hnum⟩ := hn l (mem_layers_of_layer? hl) key row hrow
    exact ⟨number, Key.ofRaw_of_toRaw? hnum⟩
  · intro pairs hp
    have ht : (fun key => (s.verdict? k key).isSome) =
        fun key => pairs.any fun p => key.isNamed p.1 p.2 := by
      funext key
      rw [Bool.eq_iff_iff, hp key, List.any_eq_true]
      simp only [Key.isNamed_iff]
    rw [foldl_removeAt ha, ← ht]
    rfl
  · intro key
    rw [base_logs, base_without, Store.find?_without]
  · intro c
    rw [base_logs, base_without, Store.knows_without]
  · intro j key
    rw [row?_logs, row?_without]
  · intro j hj
    have hj' : ¬ j ≤ k := by omega
    rw [layer?_logs, layer?_without]
    simp [hj']

theorem sweep_of_no_verdict {s : Stack P} (ha : s.armed = none)
    (hn : ∀ l ∈ s.layers, Named l.rows) {k : Nat} (hv : ∀ key, s.verdict? k key = none)
    (w : Walk) : s.sweep k w = (s, []) := by
  obtain ⟨found, hs, -, hf⟩ := sweepWhere_of_unarmed ha hn k w fun _ => true
  have hnil : found = [] := by
    apply List.eq_nil_iff_forall_not_mem.2
    intro x hx
    have he := ((hf x).1 hx).2
    simp [expired?, hv] at he
  subst hnil
  rw [sweep, hs, without_eq_self] <;> simp [hv]

theorem sweep_sweep_of_unarmed {s : Stack P} (ha : s.armed = none)
    (hn : ∀ l ∈ s.layers, Named l.rows) (k : Nat) (w w' : Walk) :
    (s.sweep k w).1.sweep k w' = ((s.sweep k w).1, []) := by
  obtain ⟨found, hs, -, -⟩ := sweepWhere_of_unarmed ha hn k w fun _ => true
  have hsweep : s.sweep k w = _ := hs
  rw [hsweep]
  apply sweep_of_no_verdict
  · rw [armed_logs, armed_without, ha]
  · intro l hl
    rcases mem_changeBelow hl with hl | ⟨l', hl', rfl⟩
    · exact hn l hl
    · rw [Layer.rows_without]
      exact named_without (hn l' hl') _
  · intro key
    rw [verdict?_logs, verdict?_without]
    cases s.verdict? k key <;> rfl

/-- Whatever led to a stack, if no report is armed then a sweep of any layer at any reading of the
clock has exactly its effect, and a second one at the same reading has none. -/
theorem sweep_exact {s : Stack P} (hs : s.Reachable) (ha : s.armed = none) (k : Nat)
    (now : Instant) (w : Walk) :
    let t := { s with clock := now }
    ExactSweep t k (t.sweep k w).1 (t.sweep k w).2 ∧
      ∀ w', (t.sweep k w).1.sweep k w' = ((t.sweep k w).1, []) := by
  intro t
  have hn : ∀ l ∈ t.layers, Named l.rows := fun l hl => named_of_reachable hs l hl
  have ht : t.armed = none := ha
  exact ⟨exactSweep_of_unarmed ht hn k w, fun w' => sweep_sweep_of_unarmed ht hn k w w'⟩

/-- A run that leaves an expired track, one without a row in layer 2 and a row without its track. -/
def unevenRun : List (Step String) :=
  [.plain 2 (.register ⟨"north", 1, "a"⟩), .plain 1 (.register ⟨"north", 2, "b"⟩),
    .plain 2 (.register ⟨"south", 7, "c"⟩), .plain 0 (.remove "south" 7),
    .plain 2 (.setClock (.mk 5000000000)), .plain 2 (.register ⟨"south", 8, "d"⟩)]

def uneven : Stack String :=
  (ofPolicies [⟨.ofSeconds 3, .ofSeconds 30⟩, ⟨.ofSeconds 4, .ofSeconds 9⟩]).run unevenRun

theorem sweep_exact_uneven :
    uneven.Reachable ∧ uneven.armed = none ∧
      (({ uneven with clock := .mk 5000000000 } : Stack String).sweep 2 .ascending).2.map
          (fun x => (x.entry.payload, x.reason)) = [("a", .inactive)] ∧
      ExactSweep { uneven with clock := .mk 5000000000 } 2
        (({ uneven with clock := .mk 5000000000 } : Stack String).sweep 2 .ascending).1
        (({ uneven with clock := .mk 5000000000 } : Stack String).sweep 2 .ascending).2 := by
  have hr : uneven.Reachable := ⟨_, _, rfl⟩
  have ha : uneven.armed = none := rfl
  exact ⟨hr, ha, by decide +kernel, (sweep_exact hr ha 2 (.mk 5000000000) .ascending).1⟩

end Stack

end LiveTracks
