import LiveTracks.Proofs.Orphans

/-!
# Rows are found again

A sweep turns the number of a row back into a signed number and looks the row up once more before it does anything
about it. A row that failed either of the two would never be swept. None does: the signed number of a row leads to
that row and to no other, and a sweep that insists on both (`sweepWhere?`) is the sweep (`rows_found_again`).
-/

namespace LiveTracks

variable {P : Type}

/-! ### One row -/

theorem Store.get?_of_find? {s : Store P} {key : Key} {e : Entry P} (h : s.find? key = some e) {number : Int64}
    (hn : key.track.toRaw? = some number) : s.get? key.camera.text number = some e := by
  have hkey : e.key = key := Store.key_of_find? h
  rw [Store.get?_eq_some_iff, hkey]
  exact ⟨Key.ofRaw_of_toRaw? hn, h⟩

theorem Key.isNamed_of_toRaw? (key : Key) {number : Int64} (hn : key.track.toRaw? = some number) {key' : Key} :
    key'.isNamed key.camera.text number = true ↔ key' = key := by
  rw [Key.isNamed_iff, Key.ofRaw_of_toRaw? hn, Except.ok.injEq, eq_comm]

theorem Layer.find?_drop_of_toRaw? (l : Layer) (key : Key) {number : Int64} (hn : key.track.toRaw? = some number)
    (key' : Key) :
    (l.drop key.camera.text number).rows.find? key' = if key' = key then none else l.rows.find? key' := by
  rw [Layer.drop_eq_without, Layer.rows_without, Store.find?_without]
  simp only [Key.isNamed_of_toRaw? key hn]

namespace Stack

/-- From number `k` downwards nothing has changed but that the track of the key is gone. -/
structure Dropped (s : Stack P) (k : Nat) (key : Key) (s' : Stack P) : Prop where
  row : ∀ j key', s'.row? j key' = if j ≤ k ∧ key' = key then none else s.row? j key'
  entry : ∀ key', s'.base.find? key' = if key' = key then none else s.base.find? key'
  knows : ∀ c, s'.base.knows c = s.base.knows c
  above : ∀ j, k < j → s'.layer? j = s.layer? j
  rest : s'.clock = s.clock ∧ s'.armed = s.armed ∧ s'.log = s.log

theorem dropped_dropAt (s : Stack P) (k : Nat) (key : Key) {number : Int64}
    (hn : key.track.toRaw? = some number) : s.Dropped k key (s.dropAt k key.camera.text number) where
  row j key' := by
    rw [row?_dropAt]
    simp only [Key.isNamed_of_toRaw? key hn]
  entry key' := by
    rw [dropAt_eq_without, base_without, Store.find?_without]
    simp only [Key.isNamed_of_toRaw? key hn]
  knows c := by rw [dropAt_eq_without, base_without, Store.knows_without]
  above j hj := by
    rw [dropAt_eq_without, layer?_without]
    simp [Nat.not_le.2 hj]
  rest := ⟨rfl, rfl, rfl⟩

/-! ### A visit leaves the other rows -/

section Visit

variable {k : Nat} {policy : Policy} {now : Instant} {c : CameraId} {s : Stack P}
  {acc : Stack P × List (Expired P)} {row : Entry Lifetime} {key : Key}

theorem isSome_row?_registerAt (n : Nat) (r : Report P) {j : Nat} (h : (s.row? j key).isSome = true) :
    ((s.registerAt n r).1.row? j key).isSome = true := by
  cases hk : Key.ofRaw r.camera r.number with
  | error e =>
    rw [registerAt_of_error hk, row?_logs]
    exact h
  | ok key' =>
    have hlayers : (s.reported n key' r.payload).layers = changeBelow n (·.noted key' s.clock) s.layers := rfl
    rw [registerAt_of_ok hk, row?_logs]
    by_cases hkey : key = key'
    · subst hkey
      rw [row?_changeBelow hlayers]
      unfold row? at h
      cases hl : s.layer? j with
      | none =>
        rw [hl] at h
        cases h
      | some l =>
        rw [hl, Option.bind_some] at h
        rw [Option.bind_some]
        split
        · rw [Layer.find?_noted, if_pos rfl]
          rfl
        · exact h
    · rw [row?_noted_of_ne hlayers hkey]
      exact h

theorem isSome_row?_removeAt (n : Nat) {camera : String} {number : Int64} {j : Nat}
    (hne : ¬ key.isNamed camera number = true) (h : (s.row? j key).isSome = true) :
    ((s.removeAt n camera number).row? j key).isSome = true := by
  have hdrop : ((s.dropAt n camera number).row? j key).isSome = true := by
    rw [row?_dropAt, if_neg fun hh => hne hh.2]
    exact h
  rw [removeAt_eq]
  unfold fireAbove fire
  split
  · exact hdrop
  · split
    · -- the armed report is made once the track is gone, and it can only add rows
      exact isSome_row?_registerAt _ _ hdrop
    · exact hdrop

theorem isSome_row?_visitRow (hrow : Visitable c row) (hne : key ≠ row.key)
    (h : (acc.1.row? k key).isSome = true) :
    ((visitRow k policy now c acc row).1.row? k key).isSome = true := by
  obtain ⟨rfl, number, hn⟩ := hrow
  have hremoved : ((acc.1.removeAt k row.camera.text number).row? k key).isSome = true :=
    isSome_row?_removeAt k (fun hh => hne ((Key.isNamed_of_toRaw? row.key hn).1 hh)) h
  unfold visitRow
  rw [hn]
  dsimp only
  split
  · exact h
  · split
    · exact h
    · split
      · exact hremoved
      · rw [row?_logs]
        exact hremoved

end Visit

/-! ### Insisting on the row -/

/-- A visit that fails where the row has no signed number, or where it is not found when it is looked up again. -/
def visitRow? (k : Nat) (policy : Policy) (now : Instant) (c : CameraId)
    (acc : Stack P × List (Expired P)) (row : Entry Lifetime) : Option (Stack P × List (Expired P)) :=
  match row.track.toRaw? with
  | none => none
  | some number =>
    match (acc.1.layer? k).bind (·.rows.get? c.text number) with
    | none => none
    | some _ => some (visitRow k policy now c acc row)

def visitCamera? (k : Nat) (w : Walk) (policy : Policy) (now : Instant)
    (acc : Stack P × List (Expired P)) (c : CameraId) : Option (Stack P × List (Expired P)) :=
  let rows := ((acc.1.layer? k).map (·.rows.entriesOf c)).getD []
  (w.rows c rows).foldlM (visitRow? k policy now c) acc

/-- A sweep that fails as soon as one of its visits does. -/
def sweepWhere? (s : Stack P) (k : Nat) (w : Walk) (mine : CameraId → Bool) :
    Option (Stack P × List (Expired P)) :=
  match s.layer? k with
  | none => some (s, [])
  | some l =>
    ((w.cameras l.rows.cameras).filter mine).foldlM (visitCamera? k w l.policy s.clock) (s, [])

section Sweep

variable {k : Nat} {policy : Policy} {now : Instant} {c : CameraId} {acc : Stack P × List (Expired P)}

theorem visitRow?_eq_some {row : Entry Lifetime} (hrow : Visitable c row)
    (h : (acc.1.row? k row.key).isSome = true) :
    visitRow? k policy now c acc row = some (visitRow k policy now c acc row) := by
  obtain ⟨rfl, number, hn⟩ := hrow
  obtain ⟨life, hlife⟩ := Option.isSome_iff_exists.1 h
  obtain ⟨l, hl, hlife⟩ := Option.bind_eq_some_iff.1 hlife
  obtain ⟨found, hfound, -⟩ := Option.map_eq_some_iff.1 hlife
  have hget : l.rows.get? row.camera.text number = some found := Store.get?_of_find? hfound hn
  simp only [visitRow?, hn, hl, Option.bind_some, hget]

/-- The rows still to be visited are there and have keys of their own, and a visit drops none but its own. -/
theorem foldlM_visitRow? (rows : List (Entry Lifetime)) (hrows : ∀ row ∈ rows, Visitable c row)
    (hkeys : (rows.map (·.key)).Nodup) (hthere : ∀ row ∈ rows, (acc.1.row? k row.key).isSome = true) :
    rows.foldlM (visitRow? k policy now c) acc = some (rows.foldl (visitRow k policy now c) acc) := by
  induction rows generalizing acc with
  | nil => rfl
  | cons row rows ih =>
    obtain ⟨hrow, hrows⟩ := List.forall_mem_cons.1 hrows
    obtain ⟨hhere, hthere⟩ := List.forall_mem_cons.1 hthere
    obtain ⟨hnew, hkeys⟩ := List.nodup_cons.1 hkeys
    rw [List.foldlM_cons, visitRow?_eq_some hrow hhere, Option.bind_eq_bind, Option.bind_some, List.foldl_cons]
    refine ih hrows hkeys fun row' hrow' => ?_
    exact isSome_row?_visitRow hrow (fun hkey => hnew (List.mem_map.2 ⟨row', hrow', hkey⟩)) (hthere row' hrow')

theorem visitCamera?_eq_some (h : UnderSweep k policy now acc.1) (w : Walk) (c : CameraId) :
    visitCamera? k w policy now acc c = some (visitCamera k w policy now acc c) := by
  obtain ⟨l, hl, -⟩ := Option.map_eq_some_iff.1 h.sweeping.1
  have hlist : ((acc.1.layer? k).map (·.rows.entriesOf c)).getD [] = l.rows.entriesOf c := by
    rw [hl, Option.map_some, Option.getD_some]
  refine foldlM_visitRow? _ (h.visitable w c) ?_ fun row hrow => ?_
  · rw [hlist]
    exact nodup_rowKeys w l c
  · rw [hlist, (w.rows_perm c _).mem_iff] at hrow
    rw [row?, hl, Option.bind_some, (Store.mem_entriesOf.1 hrow).2]
    rfl

theorem foldlM_visitCamera? (h : UnderSweep k policy now acc.1) (w : Walk) (cameras : List CameraId) :
    cameras.foldlM (visitCamera? k w policy now) acc = some (cameras.foldl (visitCamera k w policy now) acc) := by
  induction cameras generalizing acc with
  | nil => rfl
  | cons c cameras ih =>
    rw [List.foldlM_cons, visitCamera?_eq_some h w c, Option.bind_eq_bind, Option.bind_some, List.foldl_cons]
    exact ih (h.visitCamera w c)

end Sweep

theorem sweepWhere?_eq_some {s : Stack P} (hn : ∀ l ∈ s.layers, Named l.rows) (k : Nat) (w : Walk)
    (mine : CameraId → Bool) : s.sweepWhere? k w mine = some (s.sweepWhere k w mine) := by
  unfold sweepWhere? sweepWhere
  cases hl : s.layer? k with
  | none => rfl
  | some l =>
    have hs : UnderSweep k l.policy s.clock ((s, []) : Stack P × List (Expired P)).1 :=
      ⟨⟨by rw [hl]; rfl, rfl⟩, hn⟩
    exact foldlM_visitCamera? hs w _

/-- Whatever calls have led to a stack, every row that a layer lists has a signed number, under which that row is
found. A removal by that number drops exactly the row in the table of the layer, and on the whole stack exactly
the track of the same key, from the layer downwards; only an armed report can follow it. So no visit of a sweep,
of whatever cameras and in whatever order, fails to find its row. -/
theorem rows_found_again {s : Stack P} (hs : s.Reached) (k : Nat) :
    (∀ l camera row, s.layer? k = some l → row ∈ l.rows.getByCamera camera →
      ∃ number, row.track.toRaw? = some number ∧ l.rows.get? camera number = some row ∧
        (∀ key, (l.drop camera number).rows.find? key = if key = row.key then none else l.rows.find? key) ∧
        ∃ t, s.Dropped k row.key t ∧ s.removeAt k camera number = t.fireAbove k ∧
          (s.armed = none → s.removeAt k camera number = t)) ∧
    ∀ w mine, s.sweepWhere? k w mine = some (s.sweepWhere k w mine) := by
  refine ⟨fun l camera row hl hrow => ?_, fun w mine => sweepWhere?_eq_some hs.named k w mine⟩
  obtain ⟨rfl, hfind⟩ := Store.mem_getByCamera.1 hrow
  obtain ⟨number, hn⟩ := hs.named l (mem_layers_of_layer? hl) row.key row hfind
  refine ⟨number, hn, Store.get?_of_find? hfind hn, l.find?_drop_of_toRaw? row.key hn,
    s.dropAt k row.camera.text number, s.dropped_dropAt k row.key hn,
    removeAt_eq s k row.camera.text number, fun ha => ?_⟩
  have hunarmed : (s.dropAt k row.camera.text number).armed = none := ha
  rw [removeAt_eq, fireAbove_of_unarmed hunarmed]

/-- Rows of the greatest number, in both layers and with a report armed, and a row without its track. -/
def brimRun : List (Step String) :=
  [.plain 2 (.register ⟨"north", 9223372036854775807, "a"⟩), .plain 2 (.register ⟨"north", 0, "b"⟩),
    .plain 0 (.remove "north" 0), .plain 2 (.arm ⟨"south", 9223372036854775807, "c"⟩),
    .plain 2 (.setClock (.mk 4000000000))]

def brim : Stack String :=
  (ofPolicies [⟨.ofSeconds 3, .ofSeconds 30⟩, ⟨.ofSeconds 3, .ofSeconds 30⟩]).run brimRun

def brimRow : Entry Lifetime := ⟨⟨"north", by decide⟩, ⟨9223372036854775807⟩, ⟨.mk 0, .mk 0⟩⟩

theorem rows_found_again_brim :
    brim.Reached ∧
      (∃ l number, brim.layer? 2 = some l ∧ brimRow ∈ l.rows.getByCamera "north" ∧
        brimRow.track.toRaw? = some number ∧ l.rows.get? "north" number = some brimRow) ∧
      brim.sweepWhere? 2 .ascending (fun _ => true) = some (brim.sweep 2 .ascending) ∧
      (brim.sweep 2 .ascending).2.map (·.entry.payload) = ["a"] := by
  have hr : brim.Reached := Reachable.reached ⟨_, _, rfl⟩
  obtain ⟨hrows, hsweep⟩ := rows_found_again hr 2
  have hlisted : (brim.layer? 2).any (fun l => brimRow ∈ l.rows.getByCamera "north") = true := by decide +kernel
  obtain ⟨l, hl, hmem⟩ := (Option.any_eq_true _ _).1 hlisted
  have hmem : brimRow ∈ l.rows.getByCamera "north" := of_decide_eq_true hmem
  obtain ⟨number, hn, hget, -⟩ := hrows l "north" brimRow hl hmem
  exact ⟨hr, ⟨l, number, hl, hmem, hn, hget⟩, hsweep .ascending _, by decide +kernel⟩

end Stack

end LiveTracks
