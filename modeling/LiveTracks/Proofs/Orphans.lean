import LiveTracks.Proofs.Lifetimes
import LiveTracks.Proofs.Refresh

/-!
# Rows without a track

What drops a track behind a layer leaves its row there. A sweep of the layer looks at the limits of a row before it
looks for the track, so the rows without a track that have passed a limit are dropped, and all others stay
(`rows_left_by_sweep`, `row_left_without_track`). No row is left that has passed a limit, not even when an armed
report is made in the midst of the sweep: a report never makes a row pass a limit (`Sweeping.kept_removeAt`).
-/

namespace LiveTracks

variable {P : Type}

namespace Stack

/-- A stack that calls have led to, be they made one after another or several at a time. What a session does is
a series of deeds as well. -/
inductive Reached : Stack P → Prop
  | after (policies : List Policy) (deeds : List (Deed P)) : Reached ((ofPolicies policies).after deeds)
  | traffic (policies : List Policy) (acts : List (Act P)) :
      Reached ((Traffic.ofPolicies policies).run acts).stack

theorem named_perform {s : Stack P} (hs : ∀ l ∈ s.layers, Named l.rows) (d : Deed P) :
    ∀ l ∈ (s.perform d).layers, Named l.rows := by
  cases d with
  | report k r => exact inductive_named.register s k r hs
  | drop k camera track => exact inductive_named.drop s k camera track hs
  | reap k camera track x => exact inductive_named.drop s k camera track hs
  | forget k camera => exact inductive_named.forget s k camera hs
  | log | setLog | setClock | setArmed => exact hs

theorem Reached.named {s : Stack P} (hs : s.Reached) : ∀ l ∈ s.layers, Named l.rows := by
  cases hs with
  | after policies deeds =>
    apply List.foldlRecOn (motive := fun s : Stack P => ∀ l ∈ s.layers, Named l.rows) _ _
      (Traffic.good_ofPolicies policies).tame.named
    intro s hs d _
    exact named_perform hs d
  | traffic policies acts => exact (Traffic.tame_run policies acts).named

theorem Reachable.reached {s : Stack P} (hs : s.Reachable) : s.Reached := by
  obtain ⟨policies, steps, rfl⟩ := hs
  have h := foldl_eq_after (fun (s : Stack P) st => s.step st)
    (fun s st => s.callDeeds st.walk st.sharing st.number st.call) (fun s => s)
    (fun s st => s.call_eq_after st.walk st.sharing st.number st.call) (ofPolicies policies) steps
  rw [run]
  exact h ▸ .after policies _

/-! ### One removal in a sweep -/

section Removal

variable {k : Nat} {policy : Policy} {now : Instant} {s : Stack P}

theorem Sweeping.verdict? (h : Sweeping k policy now s) (key : Key) :
    s.verdict? k key = (s.row? k key).bind (policy.evaluate · now) := by
  obtain ⟨l, hl, rfl⟩ := Option.map_eq_some_iff.1 h.1
  rw [verdict?_eq_bind_row? hl, h.2]

theorem Sweeping.pos (h : Sweeping k policy now s) : 1 ≤ k ∧ k ≤ s.depth := by
  obtain ⟨l, hl, -⟩ := Option.map_eq_some_iff.1 h.1
  cases k with
  | zero => cases hl
  | succ k => exact ⟨Nat.le_add_left 1 k, (List.getElem?_eq_some_iff.1 hl).1⟩

theorem Sweeping.of_policies (h : Sweeping k policy now s) {s' : Stack P}
    (hp : s'.layers.map (·.policy) = s.layers.map (·.policy)) (hc : s'.clock = s.clock) :
    Sweeping k policy now s' := by
  refine ⟨?_, hc.trans h.2⟩
  rw [← h.1]
  cases k with
  | zero => rfl
  | succ k =>
    have hk := congrArg (·[k]?) hp
    simp only [List.getElem?_map] at hk
    exact hk

theorem Sweeping.kept_registerAt (h : Sweeping k policy now s) (n : Nat) (r : Report P) {key : Key}
    (hv : s.verdict? k key = none) : (s.registerAt n r).1.verdict? k key = none := by
  have h' : Sweeping k policy now (s.registerAt n r).1 :=
    h.of_policies (map_policy_perform s (.report n r)) (clock_registerAt s n r)
  rw [h.verdict?] at hv
  rw [h'.verdict?, row?_report n r h.pos.2 h.pos.1]
  split
  · -- the report extends a row within its limits, or it begins one
    rw [h.2, Option.bind_some, Policy.evaluate_eq_none_iff]
    cases hrow : s.row? k key with
    | none => simp
    | some life =>
      rw [hrow, Option.bind_some, Policy.evaluate_eq_none_iff] at hv
      simpa using hv.2
  · exact hv

theorem Sweeping.kept_fireAbove (h : Sweeping k policy now s) (n : Nat) {key : Key}
    (hv : s.verdict? k key = none) : (s.fireAbove n).verdict? k key = none := by
  unfold fireAbove fire
  split
  · exact hv
  · split
    · exact Sweeping.kept_registerAt (s := { s with armed := none }) h _ _ hv
    · exact hv

theorem Sweeping.kept_removeAt (h : Sweeping k policy now s) (camera : String) (number : Int64) {key : Key}
    (hv : key.isNamed camera number = true ∨ s.verdict? k key = none) :
    (s.removeAt k camera number).verdict? k key = none := by
  have hd : Sweeping k policy now (s.dropAt k camera number) :=
    h.of_policies (map_policy_perform s (.drop k camera number)) rfl
  rw [removeAt_eq]
  refine hd.kept_fireAbove k ?_
  rw [dropAt_eq_without, verdict?_without]
  rcases hv with hn | hv
  · rw [hn, if_pos rfl]
  · rw [hv, ite_self]

theorem fireAbove_of_unnamed {key : Key} (ha : ∀ r, s.armed = some r → key.isNamed r.camera r.number = false)
    (n : Nat) :
    (s.fireAbove n).base.find? key = s.base.find? key ∧ (∀ j, (s.fireAbove n).row? j key = s.row? j key) ∧
      ((s.fireAbove n).armed = s.armed ∨ (s.fireAbove n).armed = none) := by
  unfold fireAbove fire
  split
  · exact ⟨rfl, fun j => rfl, .inl rfl⟩
  · split
    next r hr =>
      have hn := ha r hr
      cases hk : Key.ofRaw r.camera r.number with
      | error e =>
        rw [register, registerAt_of_error hk]
        exact ⟨rfl, fun j => row?_logs _ _ j key, .inr rfl⟩
      | ok key' =>
        have hne : key ≠ key' := Key.ne_of_isNamed_eq_false hn hk
        rw [register, registerAt_of_ok hk]
        refine ⟨?_, fun j => ?_, .inr rfl⟩
        · rw [base_logs, reported, Store.find?_put, Key.key_entry, if_neg hne]
        · rw [row?_logs]
          exact row?_noted_of_ne rfl hne j
    · exact ⟨rfl, fun j => rfl, .inl rfl⟩

theorem removeAt_of_unnamed {key : Key} (ha : ∀ r, s.armed = some r → key.isNamed r.camera r.number = false)
    (n : Nat) (camera : String) (number : Int64) :
    ((s.removeAt n camera number).base.find? key =
        if key.isNamed camera number then none else s.base.find? key) ∧
      (∀ j, (s.removeAt n camera number).row? j key =
        if j ≤ n ∧ key.isNamed camera number then none else s.row? j key) ∧
      ((s.removeAt n camera number).armed = s.armed ∨ (s.removeAt n camera number).armed = none) := by
  obtain ⟨hb, hr, harmed⟩ := fireAbove_of_unnamed (s := s.dropAt n camera number) ha n
  rw [removeAt_eq]
  refine ⟨?_, fun j => ?_, harmed⟩
  · rw [hb, dropAt, Store.remove_eq_without, Store.find?_without]
  · rw [hr, row?_dropAt]

end Removal

/-! ### A sweep under way -/

/-- A sweep of layer `k` is under way, by this policy and at this reading of the clock. -/
structure UnderSweep (k : Nat) (policy : Policy) (now : Instant) (s : Stack P) : Prop where
  sweeping : Sweeping k policy now s
  named : ∀ l ∈ s.layers, Named l.rows

section Sweep

variable {k : Nat} {policy : Policy} {now : Instant} {acc : Stack P × List (Expired P)}

theorem UnderSweep.visitRow (h : UnderSweep k policy now acc.1) (c : CameraId) (row : Entry Lifetime) :
    UnderSweep k policy now (visitRow k policy now c acc row).1 where
  sweeping := h.sweeping.visitRow c row
  named := inductive_named.visitRow k policy now c acc row h.named

theorem UnderSweep.visitCamera (h : UnderSweep k policy now acc.1) (w : Walk) (c : CameraId) :
    UnderSweep k policy now (visitCamera k w policy now acc c).1 where
  sweeping := h.sweeping.visitCamera w c
  named := inductive_named.visitCamera k w policy now acc c h.named

/-- A row that a sweep visits on camera `c`. -/
def Visitable (c : CameraId) (row : Entry Lifetime) : Prop :=
  row.camera = c ∧ ∃ number, row.track.toRaw? = some number

theorem UnderSweep.visitable (h : UnderSweep k policy now acc.1) (w : Walk) (c : CameraId) :
    ∀ row ∈ w.rows c (((acc.1.layer? k).map (·.rows.entriesOf c)).getD []), Visitable c row := by
  obtain ⟨l, hl, -⟩ := Option.map_eq_some_iff.1 h.sweeping.1
  intro row hrow
  rw [hl, Option.map_some, Option.getD_some, (w.rows_perm c _).mem_iff] at hrow
  obtain ⟨hc, hfind⟩ := Store.mem_entriesOf.1 hrow
  exact ⟨hc, h.named l (mem_layers_of_layer? hl) row.key row hfind⟩

theorem sweepWhere_induction {q : Stack P × List (Expired P) → Prop} {s : Stack P}
    (hn : ∀ l ∈ s.layers, Named l.rows) {l : Layer} (hl : s.layer? k = some l) (w : Walk)
    (mine : CameraId → Bool)
    (hvisit : ∀ acc c row, UnderSweep k l.policy s.clock acc.1 → Visitable c row → q acc →
      q (visitRow k l.policy s.clock c acc row)) (h : q (s, [])) : q (s.sweepWhere k w mine) := by
  have hs : UnderSweep k l.policy s.clock s := ⟨⟨by rw [hl]; rfl, rfl⟩, hn⟩
  unfold sweepWhere
  rw [hl]
  refine (List.foldlRecOn (motive := fun acc => UnderSweep k l.policy s.clock acc.1 ∧ q acc) _ _ ⟨hs, h⟩ ?_).2
  intro acc ha c _
  refine ⟨ha.1.visitCamera w c, ?_⟩
  refine (List.foldlRecOn (motive := fun acc => UnderSweep k l.policy s.clock acc.1 ∧ q acc) _ _ ha ?_).2
  intro acc' ha' row hrow
  exact ⟨ha'.1.visitRow c row, hvisit acc' c row ha'.1 (ha.1.visitable w c row hrow) ha'.2⟩

/-- Once a row has been visited it is within its limits or gone, and stays so. -/
theorem kept_visitRow (h : UnderSweep k policy now acc.1) {c : CameraId} {row : Entry Lifetime}
    (hrow : Visitable c row) {key : Key} (hv : key = row.key ∨ acc.1.verdict? k key = none) :
    (visitRow k policy now c acc row).1.verdict? k key = none := by
  obtain ⟨rfl, number, hn⟩ := hrow
  obtain ⟨l, hl, rfl⟩ := Option.map_eq_some_iff.1 h.sweeping.1
  have hvisit := visitRow_eq hl hn
  rw [h.sweeping.2] at hvisit
  rw [hvisit]
  cases hr : acc.1.verdict? k row.key with
  | none =>
    rcases hv with rfl | hv
    · exact hr
    · exact hv
  | some reason =>
    have hnamed : row.key.isNamed row.camera.text number = true :=
      Key.isNamed_iff.2 (Key.ofRaw_of_toRaw? (k := row.key) hn)
    have hkept : (acc.1.removeAt k row.camera.text number).verdict? k key = none := by
      refine h.sweeping.kept_removeAt row.camera.text number (hv.imp_left fun hk => ?_)
      rw [hk]
      exact hnamed
    dsimp only
    cases acc.1.base.find? row.key with
    | none => exact hkept
    | some entry => exact (verdict?_logs _ _ k key).trans hkept

theorem kept_visitRows (h : UnderSweep k policy now acc.1) {c : CameraId} {rows : List (Entry Lifetime)}
    (hrows : ∀ row ∈ rows, Visitable c row) {key : Key}
    (hv : key ∈ rows.map (·.key) ∨ acc.1.verdict? k key = none) :
    (rows.foldl (visitRow k policy now c) acc).1.verdict? k key = none := by
  induction rows generalizing acc with
  | nil => exact hv.resolve_left List.not_mem_nil
  | cons row rows ih =>
    refine ih (h.visitRow c row) (fun row' hr => hrows row' (List.mem_cons_of_mem row hr)) ?_
    have hrow := hrows row List.mem_cons_self
    rcases hv with hv | hv
    · rcases List.mem_cons.1 hv with hv | hv
      · exact .inr (kept_visitRow h hrow (.inl hv))
      · exact .inl hv
    · exact .inr (kept_visitRow h hrow (.inr hv))

theorem kept_visitCamera (h : UnderSweep k policy now acc.1) (w : Walk) {c : CameraId} {key : Key}
    (hv : key.camera = c ∨ acc.1.verdict? k key = none) :
    (visitCamera k w policy now acc c).1.verdict? k key = none := by
  refine kept_visitRows h (h.visitable w c) ?_
  cases hr : acc.1.verdict? k key with
  | none => exact .inr rfl
  | some reason =>
    -- a row that has passed a limit is listed with its camera
    have hdue : (acc.1.verdict? k key).isSome = true := by rw [hr]; rfl
    obtain ⟨l, row, hl, hrow⟩ := isSome_row?_of_verdict? hdue
    have hc : key.camera = c := hv.resolve_right (by rw [hr]; exact nofun)
    rw [hl]
    exact .inl (mem_rowKeys.2 ⟨hc, by rw [hrow]; rfl⟩)

theorem kept_visitCameras (h : UnderSweep k policy now acc.1) (w : Walk) {cameras : List CameraId} {key : Key}
    (hv : key.camera ∈ cameras ∨ acc.1.verdict? k key = none) :
    (cameras.foldl (visitCamera k w policy now) acc).1.verdict? k key = none := by
  induction cameras generalizing acc with
  | nil => exact hv.resolve_left List.not_mem_nil
  | cons c cameras ih =>
    refine ih (h.visitCamera w c) ?_
    rcases hv with hv | hv
    · rcases List.mem_cons.1 hv with hv | hv
      · exact .inr (kept_visitCamera h w (.inl hv))
      · exact .inl hv
    · exact .inr (kept_visitCamera h w (.inr hv))

end Sweep

/-! ### What a sweep leaves -/

theorem kept_sweepWhere {s : Stack P} (hn : ∀ l ∈ s.layers, Named l.rows) (k : Nat) (w : Walk)
    {mine : CameraId → Bool} {key : Key} (hm : mine key.camera = true) :
    (s.sweepWhere k w mine).1.verdict? k key = none := by
  unfold sweepWhere
  cases hl : s.layer? k with
  | none =>
    rw [verdict?, hl]
    rfl
  | some l =>
    have hs : UnderSweep k l.policy s.clock ((s, []) : Stack P × List (Expired P)).1 :=
      ⟨⟨by rw [hl]; rfl, rfl⟩, hn⟩
    refine kept_visitCameras hs w ?_
    cases hr : s.verdict? k key with
    | none => exact .inr rfl
    | some reason =>
      have hdue : (s.verdict? k key).isSome = true := by rw [hr]; rfl
      obtain ⟨l', row, hl', hrow⟩ := isSome_row?_of_verdict? hdue
      rw [hl] at hl'
      cases hl'
      refine .inl (List.mem_filter.2 ⟨?_, hm⟩)
      rw [(w.cameras_perm _).mem_iff, Store.mem_cameras]
      exact Store.knows_of_find? hrow

/-- The track of the key is not stored, and the sweep has left its row alone, or dropped it because of `due`. -/
structure Orphaned (k : Nat) (key : Key) (row : Option Lifetime) (due : Prop)
    (acc : Stack P × List (Expired P)) : Prop where
  absent : acc.1.base.find? key = none
  unnamed : ∀ r, acc.1.armed = some r → key.isNamed r.camera r.number = false
  row : acc.1.row? k key = row ∨ (acc.1.row? k key = none ∧ due)
  unreported : ∀ x ∈ acc.2, x.entry.key ≠ key

section Orphan

variable {k : Nat} {policy : Policy} {now : Instant} {key : Key} {row : Option Lifetime}
  {acc : Stack P × List (Expired P)}

theorem Orphaned.removeAt (ho : Orphaned k key row ((row.bind (policy.evaluate · now)).isSome = true) acc)
    (h : Sweeping k policy now acc.1) {camera : String} {number : Int64} {due : Key} {reason : Reason}
    (hkey : Key.ofRaw camera number = .ok due) (hdue : acc.1.verdict? k due = some reason) :
    Orphaned k key row ((row.bind (policy.evaluate · now)).isSome = true)
      (acc.1.removeAt k camera number, acc.2) := by
  obtain ⟨hb, hrow, harmed⟩ := removeAt_of_unnamed ho.unnamed k camera number
  refine ⟨?_, fun r hr => ?_, ?_, ho.unreported⟩
  · rw [hb, ho.absent, ite_self]
  · rcases harmed with ha | ha
    · exact ho.unnamed r (ha ▸ hr)
    · cases ha.symm.trans hr
  · rw [hrow]
    split
    · -- only what has passed a limit is removed, and until then the row is what it was
      rename_i hnamed
      have hk : due = key := Except.ok.inj (hkey.symm.trans (Key.isNamed_iff.1 hnamed.2))
      rw [hk, h.verdict?] at hdue
      refine .inr ⟨rfl, ?_⟩
      rcases ho.row with hsame | ⟨-, hpassed⟩
      · rw [← hsame, hdue]
        rfl
      · exact hpassed
    · exact ho.row

theorem Orphaned.visitRow (ho : Orphaned k key row ((row.bind (policy.evaluate · now)).isSome = true) acc)
    (h : UnderSweep k policy now acc.1) {c : CameraId} {visited : Entry Lifetime} (hv : Visitable c visited) :
    Orphaned k key row ((row.bind (policy.evaluate · now)).isSome = true)
      (visitRow k policy now c acc visited) := by
  obtain ⟨rfl, number, hn⟩ := hv
  obtain ⟨l, hl, rfl⟩ := Option.map_eq_some_iff.1 h.sweeping.1
  have hvisit := visitRow_eq hl hn
  rw [h.sweeping.2] at hvisit
  rw [hvisit]
  cases hr : acc.1.verdict? k visited.key with
  | none => exact ho
  | some reason =>
    have hremoved := ho.removeAt h.sweeping (Key.ofRaw_of_toRaw? (k := visited.key) hn) hr
    dsimp only
    cases hfind : acc.1.base.find? visited.key with
    | none => exact hremoved
    | some entry =>
      -- what is reported is stored, and the key is not
      have hne : entry.key ≠ key := by
        intro hk
        have hentry : entry.key = visited.key := Store.key_of_find? hfind
        rw [← hentry, hk, ho.absent] at hfind
        cases hfind
      refine ⟨hremoved.absent, hremoved.unnamed, ?_, fun x hx => ?_⟩
      · rw [row?_logs]
        exact hremoved.row
      · rcases List.mem_append.1 hx with hx | hx
        · exact ho.unreported x hx
        · rw [List.mem_singleton.1 hx]
          exact hne

end Orphan

section Swept

variable {s : Stack P} {k : Nat} {l : Layer}

theorem sweep_of_layer?_eq_none (hl : s.layer? k = none) (w : Walk) : s.sweep k w = (s, []) := by
  simp only [sweep, sweepWhere, hl]

theorem evaluate_of_row?_sweep (hn : ∀ l ∈ s.layers, Named l.rows) (hl : s.layer? k = some l) (w : Walk)
    {key : Key} {life : Lifetime} (hlife : (s.sweep k w).1.row? k key = some life) :
    l.policy.evaluate life s.clock = none := by
  have hsweeping : Sweeping k l.policy s.clock (s.sweep k w).1 :=
    sweepWhere_induction (q := fun acc => Sweeping k l.policy s.clock acc.1) hn hl w _
      (fun acc c row _ _ hq => hq.visitRow c row) ⟨by rw [hl]; rfl, rfl⟩
  have hkept : (s.sweep k w).1.verdict? k key = none := kept_sweepWhere hn k w rfl
  rw [hsweeping.verdict?, hlife] at hkept
  exact hkept

theorem orphaned_sweep (hn : ∀ l ∈ s.layers, Named l.rows) (hl : s.layer? k = some l) (w : Walk) {key : Key}
    (habsent : s.base.find? key = none)
    (hunnamed : ∀ r, s.armed = some r → key.isNamed r.camera r.number = false) :
    Orphaned k key (s.row? k key) ((s.verdict? k key).isSome = true) (s.sweep k w) := by
  rw [verdict?_eq_bind_row? hl]
  exact sweepWhere_induction hn hl w _ (fun acc c row h hv ho => ho.visitRow h hv)
    ⟨habsent, hunnamed, .inl rfl, fun x hx => absurd hx List.not_mem_nil⟩

theorem row?_sweep_of_absent (hn : ∀ l ∈ s.layers, Named l.rows) (k : Nat) (w : Walk) {key : Key}
    (habsent : s.base.find? key = none)
    (hunnamed : ∀ r, s.armed = some r → key.isNamed r.camera r.number = false) :
    (s.sweep k w).1.row? k key = (if (s.verdict? k key).isSome then none else s.row? k key) ∧
      ∀ x ∈ (s.sweep k w).2, x.entry.key ≠ key := by
  cases hl : s.layer? k with
  | none =>
    have hrow : s.row? k key = none := by rw [row?, hl]; rfl
    rw [sweep_of_layer?_eq_none hl, hrow, ite_self]
    exact ⟨rfl, fun x hx => absurd hx List.not_mem_nil⟩
  | some l =>
    have ho := orphaned_sweep hn hl w habsent hunnamed
    refine ⟨?_, ho.unreported⟩
    rcases ho.row with hrow | ⟨hrow, hdue⟩
    · split
      · -- the row has passed a limit, so it cannot be left
        rename_i hdue
        cases hlife : s.row? k key with
        | none => exact hrow.trans hlife
        | some life =>
          rw [verdict?_eq_bind_row? hl, hlife, Option.bind_some,
            evaluate_of_row?_sweep hn hl w (hrow.trans hlife)] at hdue
          cases hdue
      · exact hrow
    · rw [hrow, if_pos hdue]

end Swept

/-- A sweep leaves no row that has passed a limit, and it reports nothing but what was stored when its row was
dropped. Of a track that is not stored, and that no armed report names, it drops the row if that has passed a limit
and leaves it otherwise, and reports nothing. -/
theorem rows_left_by_sweep {s : Stack P} (hs : s.Reached) (k : Nat) (now : Instant) (w : Walk) :
    let t : Stack P := { s with clock := now }
    let swept := t.sweep k w
    let deeds := t.sweepDeeds k w fun _ => true
    (∀ key life, swept.1.row? k key = some life →
      ∃ l, s.layer? k = some l ∧ l.policy.evaluate life now = none) ∧
    (swept.1 = t.after deeds ∧ swept.2 = deeds.filterMap Deed.found? ∧ t.Truthful deeds) ∧
    ∀ key, s.base.find? key = none → (∀ r, s.armed = some r → key.isNamed r.camera r.number = false) →
      swept.1.row? k key = (if (t.verdict? k key).isSome then none else s.row? k key) ∧
        ∀ x ∈ swept.2, x.entry.key ≠ key := by
  intro t swept deeds
  have hn : ∀ l ∈ t.layers, Named l.rows := hs.named
  refine ⟨fun key life hlife => ?_, ⟨t.sweepWhere_eq_after k w _, t.sweepWhere_snd k w _,
    t.truthful_sweepDeeds k w _⟩, fun key => row?_sweep_of_absent hn k w⟩
  cases hl : t.layer? k with
  | none =>
    have hsame : swept = (t, []) := sweep_of_layer?_eq_none hl w
    rw [hsame, row?, hl] at hlife
    cases hlife
  | some l => exact ⟨l, hl, evaluate_of_row?_sweep hn hl w hlife⟩

/-- Two tracks are dropped behind the layer. One of their rows has passed a limit when the layer is swept, and so
has the row of a track that is stored. -/
def bereftRun : List (Step String) :=
  [.plain 1 (.register ⟨"north", 1, "a"⟩), .plain 1 (.register ⟨"south", 3, "c"⟩),
    .plain 0 (.remove "north" 1), .plain 1 (.setClock (.mk 2000000000)),
    .plain 1 (.register ⟨"north", 2, "b"⟩), .plain 0 (.remove "north" 2)]

def bereft : Stack String := (ofPolicies [⟨.ofSeconds 3, .ofSeconds 30⟩]).run bereftRun

theorem rows_left_by_sweep_bereft :
    bereft.Reached ∧
      (({ bereft with clock := .mk 4000000000 } : Stack String).sweep 1 .ascending).2.map
        (·.entry.payload) = ["c"] ∧
      (({ bereft with clock := .mk 4000000000 } : Stack String).sweep 1 .ascending).1.row? 1
        ⟨⟨"north", by decide⟩, ⟨1⟩⟩ = none ∧
      (({ bereft with clock := .mk 4000000000 } : Stack String).sweep 1 .ascending).1.row? 1
        ⟨⟨"north", by decide⟩, ⟨2⟩⟩ = some ⟨.mk 2000000000, .mk 2000000000⟩ := by
  have hr : bereft.Reached := Reachable.reached ⟨_, _, rfl⟩
  obtain ⟨-, -, h⟩ := rows_left_by_sweep hr 1 (.mk 4000000000) .ascending
  have h1 := (h ⟨⟨"north", by decide⟩, ⟨1⟩⟩ (by decide +kernel) fun r hr => nomatch hr).1
  have h2 := (h ⟨⟨"north", by decide⟩, ⟨2⟩⟩ (by decide +kernel) fun r hr => nomatch hr).1
  refine ⟨hr, by decide +kernel, h1.trans ?_, h2.trans ?_⟩
  · decide +kernel
  · decide +kernel

/-- A row whose track was dropped behind the layer is still there after a sweep, since no limit has passed. -/
theorem row_left_without_track :
    let swept := (({ bereft with clock := .mk 4000000000 } : Stack String).sweep 1 .ascending).1
    bereft.Reached ∧ (swept.row? 1 ⟨⟨"north", by decide⟩, ⟨2⟩⟩).isSome = true ∧
      swept.base.find? ⟨⟨"north", by decide⟩, ⟨2⟩⟩ = none :=
  ⟨Reachable.reached ⟨_, _, rfl⟩, by decide +kernel, by decide +kernel⟩

end Stack

end LiveTracks
