import LiveTracks.Proofs.Refresh

/-!
# Sweepers at work

Several sweepers share out the cameras of the top layer. Each of them sweeps its share time and again, one sweep
at a time, while callers report, remove and clear whatever they like, and the accesses of all these calls come in
any order. A `Shift` is the traffic of all this. It also remembers what nothing that is run looks at: which call
stored the entry of a key last, and which entries the sweeps have taken to report them.

No call goes on forever: a call that gets its turn again and again comes to its end, whatever is done between
two of its turns (`ends_of_turns`).
-/

namespace LiveTracks

variable {P : Type}

/-- What a call on the top is made for. -/
inductive Job (P : Type) where
  | report (r : Report P)
  | remove (camera : String) (number : Int64)
  | clear (camera : String)
  /-- The next sweep of sweeper `p`. -/
  | sweep (p : Nat) (w : Walk)

/-- What a sweep has taken to report it: the call that sweeps, the call that stored the entry, and the entry
with the reason. -/
structure Taking (P : Type) where
  sweep : Nat
  source : Option Nat
  found : Expired P

structure Shift (P : Type) where
  traffic : Traffic P
  jobs : List (Job P)
  source : Key → Option Nat
  takings : List (Taking P)

/-- The cameras that sweeper `p` out of `n` sweeps. -/
def Sharing.share (sharing : Sharing) (n p : Nat) (c : CameraId) : Bool := sharing.part (max n 1) c == p

namespace Job

def request (sharing : Sharing) (n : Nat) : Job P → Request P
  | .report r => .register r
  | .remove camera number => .remove camera number
  | .clear camera => .clear camera
  | .sweep p w => .sweep w (sharing.share n p)

/-- The same if the sweepers need not keep to a share: sweeper `p` sweeps the cameras that `reach p` picks. -/
def requestBy (reach : Nat → CameraId → Bool) : Job P → Request P
  | .report r => .register r
  | .remove camera number => .remove camera number
  | .clear camera => .clear camera
  | .sweep p w => .sweep w (reach p)

theorem requestBy_share (sharing : Sharing) (n : Nat) (job : Job P) :
    job.requestBy (sharing.share n) = job.request sharing n := by
  cases job <;> rfl

def isSweepOf (p : Nat) : Job P → Bool
  | .sweep p' _ => p' == p
  | _ => false

end Job

namespace Stage

/-- The key of the entry that the next access is to store. -/
def stores? : Stage P → Option Key
  | .writeEntry _ r => (Key.ofRaw r.camera r.number).toOption
  | _ => none

/-- What the next access takes to report it. -/
def takes? (s : Stack P) : Stage P → Option (Expired P)
  | .fetch _ c _ _ number reason => (s.get? c.text number).map (⟨·, reason⟩)
  | _ => none

end Stage

namespace Shift

def ofPolicies (policies : List Policy) : Shift P := ⟨.ofPolicies policies, [], fun _ => none, []⟩

def idle (s : Shift P) (p : Nat) : Bool :=
  (s.jobs.zip s.traffic.calls).all fun (job, c) => !job.isSweepOf p || c.isDone

def admits (s : Shift P) : Job P → Bool
  | .sweep p _ => s.idle p
  | _ => true

inductive Move (P : Type) where
  | setClock (now : Instant)
  /-- A call is made on the top. A sweeper that has not ended its last sweep makes none. -/
  | ask (job : Job P)
  | go (i : Nat)

def step (sharing : Sharing) (n : Nat) (s : Shift P) : Move P → Shift P
  | .setClock now => { s with traffic := s.traffic.step (.setClock now) }
  | .ask job =>
    if s.admits job then
      { s with
        traffic := s.traffic.step (.start s.traffic.stack.depth (job.request sharing n))
        jobs := s.jobs ++ [job] }
    else s
  | .go i =>
    match s.traffic.calls[i]? with
    | none => s
    | some c =>
      { s with
        traffic := s.traffic.step (.go i)
        source := fun key => if c.stores? = some key then some i else s.source key
        takings := s.takings ++
          ((c.takes? s.traffic.stack).map fun x => ⟨i, s.source x.entry.key, x⟩).toList }

def run (sharing : Sharing) (n : Nat) (s : Shift P) (moves : List (Move P)) : Shift P :=
  moves.foldl (step sharing n) s

def stepBy (reach : Nat → CameraId → Bool) (s : Shift P) : Move P → Shift P
  | .setClock now => { s with traffic := s.traffic.step (.setClock now) }
  | .ask job =>
    if s.admits job then
      { s with
        traffic := s.traffic.step (.start s.traffic.stack.depth (job.requestBy reach))
        jobs := s.jobs ++ [job] }
    else s
  | .go i =>
    match s.traffic.calls[i]? with
    | none => s
    | some c =>
      { s with
        traffic := s.traffic.step (.go i)
        source := fun key => if c.stores? = some key then some i else s.source key
        takings := s.takings ++
          ((c.takes? s.traffic.stack).map fun x => ⟨i, s.source x.entry.key, x⟩).toList }

def runBy (reach : Nat → CameraId → Bool) (s : Shift P) (moves : List (Move P)) : Shift P :=
  moves.foldl (stepBy reach) s

section Reach

variable {reach : Nat → CameraId → Bool} {s : Shift P}

theorem stepBy_ask {job : Job P} (h : s.admits job = true) :
    s.stepBy reach (.ask job) =
      { s with
        traffic := ⟨s.traffic.stack, s.traffic.calls ++ [.ofRequest s.traffic.stack.depth (job.requestBy reach)]⟩
        jobs := s.jobs ++ [job] } := if_pos h

theorem stepBy_ask_of_not {job : Job P} (h : s.admits job ≠ true) : s.stepBy reach (.ask job) = s := if_neg h

theorem stepBy_go_of_none {i : Nat} (h : s.traffic.calls[i]? = none) : s.stepBy reach (.go i) = s := by
  simp only [stepBy, h]

theorem stepBy_go {i : Nat} {c : Stage P} (h : s.traffic.calls[i]? = some c) :
    s.stepBy reach (.go i) =
      { s with
        traffic := ⟨(c.advance s.traffic.stack).1, s.traffic.calls.set i (c.advance s.traffic.stack).2⟩
        source := fun key => if c.stores? = some key then some i else s.source key
        takings := s.takings ++
          ((c.takes? s.traffic.stack).map fun x => ⟨i, s.source x.entry.key, x⟩).toList } := by
  simp only [stepBy, Traffic.step, h]

theorem runBy_append (s : Shift P) (first later : List (Move P)) :
    s.runBy reach (first ++ later) = (s.runBy reach first).runBy reach later := List.foldl_append

theorem runBy_concat (s : Shift P) (moves : List (Move P)) (m : Move P) :
    s.runBy reach (moves ++ [m]) = (s.runBy reach moves).stepBy reach m := s.runBy_append moves [m]

theorem runBy_induction {q : Shift P → Prop} (hset : ∀ s now, q s → q (s.stepBy reach (.setClock now)))
    (hask : ∀ s job, q s → s.admits job = true → q (s.stepBy reach (.ask job)))
    (hgo : ∀ s i c, q s → s.traffic.calls[i]? = some c → q (s.stepBy reach (.go i)))
    (h : q s) (moves : List (Move P)) : q (s.runBy reach moves) := by
  apply List.foldlRecOn (motive := q) _ _ h
  intro s hs m _
  cases m with
  | setClock now => exact hset s now hs
  | ask job =>
    by_cases ha : s.admits job = true
    · exact hask s job hs ha
    · rw [stepBy_ask_of_not ha]
      exact hs
  | go i =>
    cases hi : s.traffic.calls[i]? with
    | none =>
      rw [stepBy_go_of_none hi]
      exact hs
    | some c => exact hgo s i c hs hi

end Reach

variable {sharing : Sharing} {n : Nat} {s : Shift P}

theorem stepBy_share (s : Shift P) (m : Move P) : s.stepBy (sharing.share n) m = s.step sharing n m := by
  cases m with
  | ask job => simp only [stepBy, step, Job.requestBy_share]
  | setClock | go => rfl

theorem runBy_share (s : Shift P) (moves : List (Move P)) :
    s.runBy (sharing.share n) moves = s.run sharing n moves := by
  have hstep : stepBy (P := P) (sharing.share n) = step sharing n := funext fun s => funext s.stepBy_share
  rw [runBy, hstep, run]

theorem step_ask {job : Job P} (h : s.admits job = true) :
    s.step sharing n (.ask job) =
      { s with
        traffic := ⟨s.traffic.stack,
          s.traffic.calls ++ [.ofRequest s.traffic.stack.depth (job.request sharing n)]⟩
        jobs := s.jobs ++ [job] } := if_pos h

theorem step_ask_of_not {job : Job P} (h : s.admits job ≠ true) : s.step sharing n (.ask job) = s := if_neg h

theorem step_go_of_none {i : Nat} (h : s.traffic.calls[i]? = none) : s.step sharing n (.go i) = s := by
  simp only [step, h]

theorem step_go {i : Nat} {c : Stage P} (h : s.traffic.calls[i]? = some c) :
    s.step sharing n (.go i) =
      { s with
        traffic := ⟨(c.advance s.traffic.stack).1, s.traffic.calls.set i (c.advance s.traffic.stack).2⟩
        source := fun key => if c.stores? = some key then some i else s.source key
        takings := s.takings ++
          ((c.takes? s.traffic.stack).map fun x => ⟨i, s.source x.entry.key, x⟩).toList } := by
  simp only [step, Traffic.step, h]

theorem run_induction {q : Shift P → Prop} (hset : ∀ s now, q s → q (s.step sharing n (.setClock now)))
    (hask : ∀ s job, q s → s.admits job = true → q (s.step sharing n (.ask job)))
    (hgo : ∀ s i c, q s → s.traffic.calls[i]? = some c → q (s.step sharing n (.go i)))
    (h : q s) (moves : List (Move P)) : q (s.run sharing n moves) := by
  rw [← runBy_share]
  refine runBy_induction (fun s now hs => ?_) (fun s job hs ha => ?_) (fun s i c hs hi => ?_) h moves
  · exact s.stepBy_share _ ▸ hset s now hs
  · exact s.stepBy_share _ ▸ hask s job hs ha
  · exact s.stepBy_share _ ▸ hgo s i c hs hi

/-! ### The turns of one call -/

theorem calls_step_of_ne {i : Nat} {c : Stage P} (hi : s.traffic.calls[i]? = some c) {m : Move P}
    (hm : m ≠ .go i) : (s.step sharing n m).traffic.calls[i]? = some c := by
  cases m with
  | setClock now => exact hi
  | ask job =>
    by_cases ha : s.admits job = true
    · rw [step_ask ha]
      exact getElem?_concat_of_some hi
    · rw [step_ask_of_not ha]
      exact hi
  | go i' =>
    cases hi' : s.traffic.calls[i']? with
    | none =>
      rw [step_go_of_none hi']
      exact hi
    | some c' =>
      rw [step_go hi']
      exact (List.getElem?_set_ne fun h => hm (congrArg Move.go h)).trans hi

theorem calls_step_go {i : Nat} {c : Stage P} (hi : s.traffic.calls[i]? = some c) :
    (s.step sharing n (.go i)).traffic.calls[i]? = some (c.advance s.traffic.stack).2 := by
  rw [step_go hi]
  exact List.getElem?_set_self (List.getElem?_eq_some_iff.1 hi).1

end Shift

/-! ### What the stages of a call have to do with its job -/

namespace Stage

def Reports (r : Report P) : Stage P → Prop
  | .writeEntry _ r' | .readClock _ _ r' | .readRow _ _ r' _ | .writeRow _ _ r' _ _ => r' = r
  | .done _ => True
  | _ => False

def Removes : Stage P → Prop
  | .drop _ _ rest => rest.Removes
  | .done _ => True
  | _ => False

/-- A sweep of the cameras that `mine` picks. -/
def Sweeps (mine : CameraId → Bool) : Stage P → Prop
  | .begin _ _ mine' | .list _ _ mine' _ => mine' = mine
  | .next round => ∀ c ∈ round.cameras, mine c = true
  | .visit round c _ | .fetch round c _ _ _ _ => mine c = true ∧ ∀ c ∈ round.cameras, mine c = true
  | .drop _ t rest => (∀ key, t.covers key = true → mine key.camera = true) ∧ rest.Sweeps mine
  | .log _ rest => rest.Sweeps mine
  | .done _ => True
  | _ => False

theorem reports_above (i k : Nat) (r : Report P) : (above i k r).Reports r := by
  unfold above
  split
  · rfl
  · trivial

theorem above_ne_writeEntry {i k k' : Nat} {r r' : Report P} : above i k r ≠ .writeEntry k' r' := by
  unfold above
  split <;> exact nofun

theorem Reports.advance {r : Report P} {c : Stage P} (h : c.Reports r) (s : Stack P) :
    (c.advance s).2.Reports r := by
  cases c with
  | writeEntry k r' =>
    cases h
    simp only [Stage.advance]
    split
    · exact reports_above ..
    · trivial
  | writeRow i k r' now firstSeen =>
    cases h
    simp only [Stage.advance]
    split
    · exact reports_above ..
    · split
      · exact reports_above ..
      · trivial
  | readClock | readRow | done => exact h
  | _ => cases h

theorem Removes.advance {c : Stage P} (h : c.Removes) (s : Stack P) : (c.advance s).2.Removes := by
  cases c with
  | drop i t rest => cases i <;> exact h
  | done a => exact h
  | _ => cases h

theorem covers_track_camera {c : CameraId} {number : Int64} {key : Key}
    (h : (Target.track c.text number).covers key = true) : key.camera = c :=
  CameraId.ext (Key.ofRaw_eq_ok_iff.1 (Key.isNamed_iff.1 h)).1.symm

theorem Sweeps.advance {mine : CameraId → Bool} {c : Stage P} (h : c.Sweeps mine) (s : Stack P) :
    (c.advance s).2.Sweeps mine := by
  cases c with
  | begin k w mine' => exact h
  | list k w mine' now =>
    cases h
    simp only [Stage.advance]
    split
    · trivial
    · exact fun c hc => (List.mem_filter.1 hc).2
  | next round =>
    simp only [Stage.advance]
    split
    · trivial
    next c cameras hcameras =>
      have hmine : ∀ c' ∈ c :: cameras, mine c' = true := hcameras ▸ h
      exact ⟨hmine c List.mem_cons_self, fun c' hc' => hmine c' (List.mem_cons_of_mem c hc')⟩
  | visit round c rows =>
    cases rows with
    | nil => exact h.2
    | cons row rows =>
      simp only [Stage.advance]
      split
      · exact h
      · split <;> exact h
  | fetch round c rows track number reason =>
    have hcovers : ∀ key, (Target.track c.text number).covers key = true → mine key.camera = true := by
      intro key hkey
      rw [covers_track_camera hkey]
      exact h.1
    simp only [Stage.advance]
    split <;> exact ⟨hcovers, h⟩
  | drop i t rest =>
    cases i with
    | zero => exact h.2
    | succ i => exact h
  | log e rest => exact h
  | done a => trivial
  | _ => cases h

theorem isDone_advance {c : Stage P} (h : c.isDone = true) (s : Stack P) : (c.advance s).2.isDone = true := by
  cases c with
  | done a => exact h
  | _ => cases h

end Stage

namespace Job

/-- The stages that a call goes through for a job. -/
def Runs (reach : Nat → CameraId → Bool) : Job P → Stage P → Prop
  | .report r, c => c.Reports r
  | .remove _ _, c | .clear _, c => c.Removes
  | .sweep p _, c => c.Sweeps (reach p)

variable {reach : Nat → CameraId → Bool}

theorem runs_ofRequest (job : Job P) (k : Nat) : job.Runs reach (.ofRequest k (job.requestBy reach)) := by
  cases job with
  | report r => rfl
  | remove camera number => trivial
  | clear camera => trivial
  | sweep p w => rfl

theorem Runs.advance {job : Job P} {c : Stage P} (h : job.Runs reach c) (s : Stack P) :
    job.Runs reach (c.advance s).2 := by
  cases job with
  | report r => exact Stage.Reports.advance h s
  | remove camera number => exact Stage.Removes.advance h s
  | clear camera => exact Stage.Removes.advance h s
  | sweep p w => exact Stage.Sweeps.advance h s

/-- The entry is written by the first access of a report, if at all. -/
theorem Runs.advance_ne {job : Job P} {c : Stage P} (h : job.Runs reach c) (s : Stack P) (k : Nat)
    (r : Report P) : (c.advance s).2 ≠ .writeEntry k r := by
  intro he
  have h' := h.advance s
  rw [he] at h'
  cases job with
  | remove | clear | sweep => cases h'
  | report r' =>
    cases c with
    | writeEntry k' r'' =>
      simp only [Stage.advance] at he
      split at he
      · exact Stage.above_ne_writeEntry he
      · cases he
    | writeRow i' k' r'' now firstSeen =>
      simp only [Stage.advance] at he
      split at he
      · exact Stage.above_ne_writeEntry he
      · split at he
        · exact Stage.above_ne_writeEntry he
        · cases he
    | readClock | readRow | done => cases he
    | _ => cases h

end Job

/-! ### Every call ends -/

namespace Stage

/-- A call that has not ended may come to this point with its next access. -/
def After (c' c : Stage P) : Prop := c.isDone = false ∧ ∃ s : Stack P, c' = (c.advance s).2

theorem acc_of_advance {c : Stage P} (h : ∀ s : Stack P, Acc After (c.advance s).2) : Acc After c := by
  refine Acc.intro c fun c' hc' => ?_
  obtain ⟨-, s, rfl⟩ := hc'
  exact h s

theorem acc_done (a : Answer P) : Acc After (.done a : Stage P) :=
  Acc.intro _ fun _ h => nomatch h.1

theorem acc_above (i k : Nat) (r : Report P) : Acc After (above i k r) := by
  -- what is left to do are the layers from `i` up to `k`
  obtain ⟨left, hleft⟩ : ∃ left, left = k - i := ⟨_, rfl⟩
  induction left generalizing i with
  | zero =>
    rw [above, if_neg (by omega)]
    exact acc_done _
  | succ left ih =>
    have hrest : Acc After (above (i + 1) k r) := ih (i + 1) (by omega)
    rw [above, if_pos (by omega)]
    refine acc_of_advance fun s => acc_of_advance fun s' => acc_of_advance fun s'' => ?_
    simp only [advance]
    split
    · exact hrest
    · split
      · exact hrest
      · exact acc_done _

theorem acc_writeEntry (k : Nat) (r : Report P) : Acc After (.writeEntry k r) := by
  refine acc_of_advance fun s => ?_
  simp only [advance]
  split
  · exact acc_above ..
  · exact acc_done _

theorem acc_drop {rest : Stage P} (h : Acc After rest) (i : Nat) (t : Target) : Acc After (.drop i t rest) := by
  induction i with
  | zero => exact acc_of_advance fun s => h
  | succ i ih => exact acc_of_advance fun s => ih

theorem acc_visit {cameras : List CameraId}
    (h : ∀ round : Round P, round.cameras = cameras → Acc After (.next round)) (rows : List (Entry Lifetime))
    (c : CameraId) (round : Round P) (hr : round.cameras = cameras) : Acc After (.visit round c rows) := by
  induction rows generalizing round with
  | nil => exact acc_of_advance fun s => h round hr
  | cons row rows ih =>
    refine acc_of_advance fun s => ?_
    simp only [advance]
    split
    · exact ih round hr
    · split
      · exact ih round hr
      · refine acc_of_advance fun s' => ?_
        simp only [advance]
        split
        · exact acc_drop (ih round hr) _ _
        · refine acc_drop (acc_of_advance fun s'' => ?_) _ _
          exact ih { round with found := _ } hr

theorem acc_next (cameras : List CameraId) (round : Round P) (hr : round.cameras = cameras) :
    Acc After (.next round) := by
  induction cameras generalizing round with
  | nil =>
    refine acc_of_advance fun s => ?_
    simp only [advance, hr]
    exact acc_done _
  | cons c cameras ih =>
    -- however many rows the camera has by then, the cameras after it are fewer
    refine acc_of_advance fun s => ?_
    simp only [advance, hr]
    exact acc_visit ih _ _ _ rfl

theorem acc_list (k : Nat) (w : Walk) (mine : CameraId → Bool) (now : Instant) :
    Acc After (.list k w mine now : Stage P) := by
  refine acc_of_advance fun s => ?_
  simp only [advance]
  split
  · exact acc_done _
  · exact acc_next _ _ rfl

theorem acc_ofRequest (k : Nat) (q : Request P) : Acc After (ofRequest k q) := by
  cases q with
  | register r => exact acc_writeEntry k r
  | remove camera number => exact acc_drop (acc_done _) _ _
  | clear camera => exact acc_drop (acc_done _) _ _
  | sweep w mine => exact acc_of_advance fun s => acc_list ..

theorem acc_advance {c : Stage P} (h : Acc After c) (s : Stack P) : Acc After (c.advance s).2 := by
  cases hd : c.isDone with
  | false => exact h.inv ⟨hd, s, rfl⟩
  | true =>
    cases c with
    | done a => exact acc_done a
    | _ => cases hd

end Stage

namespace Shift

variable {sharing : Sharing} {n : Nat} {s : Shift P}

def Ending (s : Shift P) : Prop := ∀ c ∈ s.traffic.calls, Acc Stage.After c

theorem ending_run (policies : List Policy) (moves : List (Move P)) :
    ((ofPolicies policies).run sharing n moves).Ending := by
  refine run_induction (fun s now h => h) (fun s job h ha => ?_) (fun s i c h hi => ?_) ?_ moves
  · rw [step_ask ha]
    intro c hc
    rcases List.mem_append.1 hc with hc | hc
    · exact h c hc
    · rw [List.mem_singleton.1 hc]
      exact Stage.acc_ofRequest _ _
  · rw [step_go hi]
    intro c' hc'
    rcases List.mem_or_eq_of_mem_set hc' with hc' | rfl
    · exact h c' hc'
    · exact Stage.acc_advance (h c (List.mem_of_getElem? hi)) _
  · intro c hc
    cases hc

/-- The shift after the first `m` of endlessly many moves. -/
def after (sharing : Sharing) (n : Nat) (s : Shift P) (moves : Nat → Move P) : Nat → Shift P
  | 0 => s
  | m + 1 => (after sharing n s moves m).step sharing n (moves m)

/-- A call stays where it is until its next turn. -/
theorem exists_turn {moves : Nat → Move P} {i : Nat} (hturns : ∀ m, ∃ m' ≥ m, moves m' = .go i) {m : Nat}
    {c : Stage P} (hc : (s.after sharing n moves m).traffic.calls[i]? = some c) :
    ∃ m' ≥ m, moves m' = .go i ∧ (s.after sharing n moves m').traffic.calls[i]? = some c := by
  obtain ⟨last, hlast, hgo⟩ := hturns m
  obtain ⟨d, rfl⟩ := Nat.exists_eq_add_of_le hlast
  clear hlast
  induction d generalizing m with
  | zero => exact ⟨m, Nat.le_refl m, hgo, hc⟩
  | succ d ih =>
    by_cases hm : moves m = .go i
    · exact ⟨m, Nat.le_refl m, hm, hc⟩
    · rw [Nat.add_comm d, ← Nat.add_assoc] at hgo
      obtain ⟨m', hm', hturn⟩ := ih (m := m + 1) (calls_step_of_ne hc hm) hgo
      exact ⟨m', Nat.le_of_succ_le hm', hturn⟩

theorem ends_of_turns {moves : Nat → Move P} {i : Nat} (hturns : ∀ m, ∃ m' ≥ m, moves m' = .go i) {m : Nat}
    {c : Stage P} (hacc : Acc Stage.After c) (hc : (s.after sharing n moves m).traffic.calls[i]? = some c) :
    ∃ m' a, (s.after sharing n moves m').traffic.calls[i]? = some (.done a) := by
  induction hacc generalizing m with
  | intro c _ ih =>
    cases hd : c.isDone with
    | true =>
      cases c with
      | done a => exact ⟨m, a, hc⟩
      | _ => cases hd
    | false =>
      obtain ⟨m', -, hgo, hc'⟩ := exists_turn hturns hc
      have hnext : (s.after sharing n moves (m' + 1)).traffic.calls[i]? =
          some (c.advance (s.after sharing n moves m').traffic.stack).2 := by
        rw [after, hgo]
        exact calls_step_go hc'
      exact ih _ ⟨hd, _, rfl⟩ hnext

end Shift

end LiveTracks
