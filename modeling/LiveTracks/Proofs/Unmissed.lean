import LiveTracks.Proofs.Takings

/-!
# Sweepers miss nothing that holds still

A sweep works from lists that it has made earlier, and others change the rows meanwhile. But as long as nobody
else touches a track whose row has expired, the sweep has this track ahead of it (`Stage.Awaits`) until it finds
it. So the sweepers of a shift report everything that holds still, and report each entry once
(`reported_once_and_none_missed`).
-/

namespace LiveTracks

variable {P : Type}

namespace Stage

/-! ### Accesses that leave a track alone -/

/-- An access that is to change the entry of the key or one of its rows. -/
def touches (key : Key) : Stage P → Bool
  | .writeEntry _ r | .writeRow _ _ r _ _ => key.isNamed r.camera r.number
  | .drop _ t _ => t.covers key
  | _ => false

theorem kept_of_touches {key : Key} {c : Stage P} (h : c.touches key = false) (s : Stack P) :
    (c.advance s).1.base.find? key = s.base.find? key ∧ ∀ j, (c.advance s).1.row? j key = s.row? j key := by
  cases access s c with
  | entry k r key' hc _ hk hb hr =>
    subst hc
    have hne : key ≠ key' := Key.ne_of_isNamed_eq_false h hk
    exact ⟨by rw [hb, Store.find?_put, Key.key_entry, if_neg hne], fun j => hr j key⟩
  | row i k r now firstSeen key' hc _ hk hb hr =>
    subst hc
    have hne : key ≠ key' := Key.ne_of_isNamed_eq_false h hk
    exact ⟨by rw [hb], fun j => by rw [hr, if_neg fun hj => hne hj.2.2]⟩
  | dropRows i t rest hc _ hb hr =>
    have hcov : t.covers key = false := by rwa [hc] at h
    exact ⟨by rw [hb], fun j => by rw [hr, hcov, if_neg fun hj => nomatch hj.2]⟩
  | dropEntries t rest hc _ hb hr =>
    have hcov : t.covers key = false := by rwa [hc] at h
    exact ⟨by rw [hb, hcov, if_neg Bool.false_ne_true], fun j => hr j key⟩
  | quiet hb hr _ => exact ⟨by rw [hb], fun j => hr j key⟩

end Stage

/-! ### Sweeps that have a track ahead -/

structure Round.On (k : Nat) (policy : Policy) (now : Instant) (round : Round P) : Prop where
  number : round.number = k
  policy : round.policy = policy
  now : round.now = now

/-- The round comes to the key later, with a camera of its list or with a row of the camera that it is at. -/
def Round.Ahead (key : Key) (round : Round P) (c : CameraId) (rows : List (Entry Lifetime)) : Prop :=
  key.camera ∈ round.cameras ∨ c = key.camera ∧ key.track ∈ rows.map (·.track)

/-- The track of an entry has expired for this reason in layer `k`. -/
structure Overdue (k : Nat) (policy : Policy) (now : Instant) (x : Expired P) (s : Stack P) : Prop where
  unchanged : ∀ l, s.layer? k = some l → l.policy = policy ∧ Stack.Named l.rows
  entry : s.base.find? x.entry.key = some x.entry
  row : ∃ life, s.row? k x.entry.key = some life ∧ policy.evaluate life now = some x.reason

namespace Stage

/-- A sweep of layer `k` that has the key ahead, or has already seen that its row has expired. -/
def Awaits (k : Nat) (policy : Policy) (now : Instant) (key : Key) (reason : Reason) : Stage P → Prop
  | .list k' _ mine now' => k' = k ∧ now' = now ∧ mine key.camera = true
  | .next round => round.On k policy now ∧ key.camera ∈ round.cameras
  | .visit round c rows => round.On k policy now ∧ round.Ahead key c rows
  | .fetch round c rows track number reason' =>
    round.On k policy now ∧ Key.ofRaw c.text number = .ok ⟨c, track⟩ ∧
      (⟨c, track⟩ = key ∧ reason' = reason ∨ ⟨c, track⟩ ≠ key ∧ round.Ahead key c rows)
  | .drop _ t rest => t.covers key = false ∧ rest.Awaits k policy now key reason
  | .log _ rest => rest.Awaits k policy now key reason
  | _ => False

end Stage

variable {k : Nat} {policy : Policy} {now : Instant} {x : Expired P} {s : Stack P}

theorem Overdue.exists_layer (h : Overdue k policy now x s) :
    ∃ l row, s.layer? k = some l ∧ l.policy = policy ∧ l.rows.find? x.entry.key = some row ∧
      policy.evaluate row.payload now = some x.reason ∧ ∃ number, x.entry.track.toRaw? = some number := by
  obtain ⟨life, hlife, hage⟩ := h.row
  obtain ⟨l, hl, hfind⟩ := Option.bind_eq_some_iff.1 hlife
  obtain ⟨row, hrow, rfl⟩ := Option.map_eq_some_iff.1 hfind
  obtain ⟨hpolicy, hnamed⟩ := h.unchanged l hl
  exact ⟨l, row, hl, hpolicy, hrow, hage, hnamed _ _ hrow⟩

namespace Stage

theorem touches_of_awaits {key : Key} {reason : Reason} {c : Stage P}
    (h : c.Awaits k policy now key reason) : c.touches key = false := by
  cases c with
  | drop i t rest => exact h.1
  | writeEntry | writeRow => cases h
  | _ => rfl

theorem awaits_list (ho : Overdue k policy now x s) {w : Walk} {mine : CameraId → Bool}
    (h : (Stage.list k w mine now : Stage P).Awaits k policy now x.entry.key x.reason) :
    ((Stage.list k w mine now : Stage P).advance s).2.Awaits k policy now x.entry.key x.reason := by
  obtain ⟨l, row, hl, hpolicy, hrow, -, -⟩ := ho.exists_layer
  obtain ⟨-, -, hmine⟩ := h
  simp only [advance, hl]
  refine ⟨⟨rfl, hpolicy, rfl⟩, List.mem_filter.2 ⟨(w.cameras_perm _).mem_iff.2 ?_, hmine⟩⟩
  exact Store.mem_cameras.2 (Store.knows_of_find? hrow)

theorem awaits_next (ho : Overdue k policy now x s) {round : Round P}
    (h : (Stage.next round).Awaits k policy now x.entry.key x.reason) :
    ((Stage.next round).advance s).2.Awaits k policy now x.entry.key x.reason := by
  obtain ⟨l, row, hl, -, hrow, -, -⟩ := ho.exists_layer
  obtain ⟨hon, hmem⟩ := h
  simp only [advance]
  split
  next hnil =>
    rw [hnil] at hmem
    cases hmem
  next c cameras hcameras =>
    rw [hcameras] at hmem
    refine ⟨⟨hon.number, hon.policy, hon.now⟩, ?_⟩
    rcases List.mem_cons.1 hmem with rfl | hmem
    · refine .inr ⟨rfl, ?_⟩
      have hkey : row.key = x.entry.key := Store.key_of_find? hrow
      simp only [hon.number, hl, Option.map_some, Option.getD_some]
      refine List.mem_map.2 ⟨row, (round.walk.rows_perm _ _).mem_iff.2 ?_, congrArg Key.track hkey⟩
      exact Store.mem_entriesOf.2 ⟨congrArg Key.camera hkey, hkey ▸ hrow⟩
    · exact .inl hmem

theorem ahead_tail {key : Key} {round : Round P} {c : CameraId} {row : Entry Lifetime}
    {rows : List (Entry Lifetime)} (hne : (⟨c, row.track⟩ : Key) ≠ key) (h : round.Ahead key c (row :: rows)) :
    round.Ahead key c rows := by
  refine h.imp_right fun hrow => ⟨hrow.1, ?_⟩
  rcases List.mem_cons.1 hrow.2 with htrack | hmem
  · have htrack : row.track = key.track := htrack.symm
    refine absurd ?_ hne
    rw [hrow.1, htrack]
  · exact hmem

theorem awaits_visit (ho : Overdue k policy now x s) {round : Round P} {c : CameraId}
    {rows : List (Entry Lifetime)} (h : (Stage.visit round c rows).Awaits k policy now x.entry.key x.reason) :
    ((Stage.visit round c rows).advance s).2.Awaits k policy now x.entry.key x.reason := by
  obtain ⟨l, life, hl, -, hrow, hage, number, hnumber⟩ := ho.exists_layer
  obtain ⟨hon, hahead⟩ := h
  cases rows with
  | nil =>
    refine ⟨hon, hahead.resolve_right fun hrow => ?_⟩
    cases hrow.2
  | cons row rows =>
    -- the sweep passes over the row if its number is not signed or if it has not expired, and neither can be the
    -- case for the row of the track
    simp only [advance]
    split
    next hraw =>
      have hne : (⟨c, row.track⟩ : Key) ≠ x.entry.key := by
        intro he
        have htrack : row.track = x.entry.track := congrArg Key.track he
        rw [htrack, hnumber] at hraw
        cases hraw
      exact ⟨hon, ahead_tail hne hahead⟩
    next number' hraw =>
      have hkey : Key.ofRaw c.text number' = .ok ⟨c, row.track⟩ := Key.ofRaw_of_toRaw? (k := ⟨c, row.track⟩) hraw
      have hfound : (⟨c, row.track⟩ : Key) = x.entry.key →
          ((s.layer? round.number).bind (·.lifetime? c.text number')).bind
            (round.policy.evaluate · round.now) = some x.reason := by
        intro he
        simp only [hon.number, hon.policy, hon.now, hl, Option.bind_some, Layer.lifetime?_of_ok hkey, he, hrow,
          Option.map_some, hage]
      split
      next hnone =>
        have hne : (⟨c, row.track⟩ : Key) ≠ x.entry.key := by
          intro he
          cases hnone.symm.trans (hfound he)
        exact ⟨hon, ahead_tail hne hahead⟩
      next reason hreason =>
        refine ⟨hon, hkey, ?_⟩
        by_cases he : (⟨c, row.track⟩ : Key) = x.entry.key
        · exact .inl ⟨he, Option.some.inj (hreason.symm.trans (hfound he))⟩
        · exact .inr ⟨he, ahead_tail he hahead⟩

theorem awaits_fetch (ho : Overdue k policy now x s) {round : Round P} {c : CameraId}
    {rows : List (Entry Lifetime)} {track : TrackId} {number : Int64} {reason : Reason}
    (h : (Stage.fetch round c rows track number reason).Awaits k policy now x.entry.key x.reason) :
    let c' := ((Stage.fetch round c rows track number reason).advance s).2
    c'.Awaits k policy now x.entry.key x.reason ∨ x ∈ c'.found := by
  obtain ⟨hon, hkey, ⟨he, hr⟩ | ⟨hne, hahead⟩⟩ := h
  · have hget : s.get? c.text number = some x.entry := Store.get?_eq_some_iff.2 ⟨he ▸ hkey, ho.entry⟩
    simp only [advance, hget]
    exact .inr (List.mem_append_right _ (List.mem_singleton.2 (hr ▸ rfl)))
  · have hspared : (Target.track c.text number).covers x.entry.key = false := by
      refine Bool.eq_false_iff.2 fun hcov => hne ?_
      exact Except.ok.inj (hkey.symm.trans (Key.isNamed_iff.1 hcov))
    simp only [advance]
    split
    · exact .inl ⟨hspared, hon, hahead⟩
    · exact .inl ⟨hspared, ⟨hon.number, hon.policy, hon.now⟩, hahead⟩

/-- With every access a sweep either keeps an overdue track ahead or has found it. -/
theorem awaits_advance (ho : Overdue k policy now x s) {c : Stage P}
    (h : c.Awaits k policy now x.entry.key x.reason) :
    (c.advance s).2.Awaits k policy now x.entry.key x.reason ∨ x ∈ (c.advance s).2.found := by
  cases c with
  | list k' w mine now' =>
    obtain ⟨rfl, rfl, -⟩ := id h
    exact .inl (awaits_list ho h)
  | next round => exact .inl (awaits_next ho h)
  | visit round c rows => exact .inl (awaits_visit ho h)
  | fetch round c rows track number reason => exact awaits_fetch ho h
  | drop i t rest =>
    cases i with
    | zero => exact .inl h.2
    | succ i => exact .inl h
  | log e rest => exact .inl h
  | _ => cases h

end Stage

theorem Overdue.advance (ho : Overdue k policy now x s) {c : Stage P}
    (hc : c.touches x.entry.key = false) (hlayer : ∀ l, (c.advance s).1.layer? k = some l →
      l.policy = policy ∧ Stack.Named l.rows) : Overdue k policy now x (c.advance s).1 := by
  obtain ⟨hentry, hrow⟩ := Stage.kept_of_touches hc s
  exact ⟨hlayer, hentry.trans ho.entry, (hrow k).symm ▸ ho.row⟩

namespace Shift

theorem tame_run (policies : List Policy) {sharing : Sharing} {n : Nat} (moves : List (Move P)) :
    ((ofPolicies policies).run sharing n moves).traffic.stack.Tame policies := by
  refine run_induction (q := fun s => s.traffic.stack.Tame policies) (fun s now h => h.of_same rfl rfl)
    (fun s job h ha => ?_) (fun s i c h hi => ?_) (Traffic.good_ofPolicies policies).tame moves
  · rw [step_ask ha]
    exact h
  · rw [step_go hi]
    exact h.advance c

/-! ### Shifts in which nobody else touches a track -/

/-- A move in which no call but `i` touches the key. -/
def sparesAt (key : Key) (i : Nat) (s : Shift P) : Move P → Bool
  | .go i' => i' == i || !(s.traffic.calls[i']?).any (·.touches key)
  | _ => true

def spares (sharing : Sharing) (n : Nat) (key : Key) (i : Nat) : Shift P → List (Move P) → Bool
  | _, [] => true
  | s, m :: moves => s.sparesAt key i m && spares sharing n key i (s.step sharing n m) moves

/-- Sweep `i` has the overdue track ahead or has found it. -/
structure Watched (policies : List Policy) (j : Nat) (policy : Policy) (now : Instant) (x : Expired P) (i : Nat)
    (s : Shift P) : Prop where
  tame : s.traffic.stack.Tame policies
  watched : ∃ c, s.traffic.calls[i]? = some c ∧
    (Overdue (j + 1) policy now x s.traffic.stack ∧ c.Awaits (j + 1) policy now x.entry.key x.reason ∨
      x ∈ c.found)

namespace Watched

variable {sharing : Sharing} {n i j : Nat} {policies : List Policy} {s : Shift P}

theorem setClock (h : Watched policies j policy now x i s) (next : Instant) :
    Watched policies j policy now x i (s.step sharing n (.setClock next)) := by
  obtain ⟨htame, c, hc, hw⟩ := h
  refine ⟨htame.of_same rfl rfl, c, hc, hw.imp_left ?_⟩
  exact fun hh => ⟨⟨hh.1.unchanged, hh.1.entry, hh.1.row⟩, hh.2⟩

theorem ask (h : Watched policies j policy now x i s) {job : Job P} (ha : s.admits job = true) :
    Watched policies j policy now x i (s.step sharing n (.ask job)) := by
  obtain ⟨htame, c, hc, hw⟩ := h
  rw [step_ask ha]
  exact ⟨htame, c, getElem?_concat_of_some hc, hw⟩

theorem go (h : Watched policies j policy now x i s) (hp : policies[j]? = some policy) {i' : Nat}
    (hs : s.sparesAt x.entry.key i (.go i') = true) :
    Watched policies j policy now x i (s.step sharing n (.go i')) := by
  obtain ⟨htame, c, hc, hw⟩ := h
  cases hi' : s.traffic.calls[i']? with
  | none =>
    rw [step_go_of_none hi']
    exact ⟨htame, c, hc, hw⟩
  | some c' =>
    have htame' := htame.advance c'
    -- the sweep itself goes on, or another call makes an access that leaves the track alone
    by_cases hii : i' = i
    · subst hii
      rw [hi'] at hc
      cases hc
      refine ⟨step_go hi' ▸ htame', _, calls_step_go hi', ?_⟩
      rw [step_go hi']
      rcases hw with ⟨ho, hawaits⟩ | hfound
      · refine (Stage.awaits_advance ho hawaits).imp_left fun hawaits' => ⟨?_, hawaits'⟩
        exact ho.advance (Stage.touches_of_awaits hawaits) fun l hl => htame'.layer hp hl
      · rw [Stage.found_advance]
        exact .inr (List.mem_append_left _ hfound)
    · have htouches : c'.touches x.entry.key = false := by
        simpa [sparesAt, hii, hi'] using hs
      refine ⟨step_go hi' ▸ htame', c, calls_step_of_ne hc (by simpa using hii), ?_⟩
      rw [step_go hi']
      refine hw.imp_left fun hh => ⟨?_, hh.2⟩
      exact hh.1.advance htouches fun l hl => htame'.layer hp hl

theorem run (h : Watched policies j policy now x i s) (hp : policies[j]? = some policy) {moves : List (Move P)}
    (hs : spares sharing n x.entry.key i s moves = true) :
    Watched policies j policy now x i (s.run sharing n moves) := by
  induction moves generalizing s with
  | nil => exact h
  | cons m moves ih =>
    obtain ⟨hm, hmoves⟩ := Bool.and_eq_true_iff.1 hs
    refine ih ?_ hmoves
    cases m with
    | setClock next => exact h.setClock next
    | go i' => exact h.go hp hm
    | ask job =>
      by_cases ha : s.admits job = true
      · exact h.ask ha
      · rw [step_ask_of_not ha]
        exact h

theorem of_begin (htame : s.traffic.stack.Tame policies) (hp : policies[j]? = some policy) {w : Walk}
    {mine : CameraId → Bool} (hi : s.traffic.calls[i]? = some (.begin (j + 1) w mine))
    (hmine : mine x.entry.camera = true) (he : s.traffic.stack.base.find? x.entry.key = some x.entry)
    (hrow : ∃ life, s.traffic.stack.row? (j + 1) x.entry.key = some life ∧
      policy.evaluate life s.traffic.stack.clock = some x.reason) :
    Watched policies j policy s.traffic.stack.clock x i (s.step sharing n (.go i)) := by
  refine ⟨?_, _, calls_step_go hi, .inl ⟨?_, rfl, rfl, hmine⟩⟩
  · rw [step_go hi]
    exact htame
  · rw [step_go hi]
    exact ⟨fun l hl => htame.layer hp hl, he, hrow⟩

end Watched

/-- Whatever sweepers and callers do at the same time, and however their accesses are interleaved: what a sweep
gives back is what it has taken, each entry has been stored by a report of its key and payload, and no two entries
that have been taken, by whatever sweeps, have been stored by the same report. A sweep that is about to read the
clock, at which the row of a track of its share has expired, gives this track back with its entry if nobody else
touches it until the sweep has ended. And every call that gets its turns ends. -/
theorem reported_once_and_none_missed (lower : List Policy) (policy : Policy) (sharing : Sharing) (n : Nat)
    (moves : List (Move P)) :
    let s := (ofPolicies (lower ++ [policy])).run sharing n moves
    let top := lower.length + 1
    (∀ i found, s.traffic.calls[i]? = some (.done (.expired found)) →
        found = (s.takings.filter (·.sweep == i)).map (·.found)) ∧
      (∀ x ∈ s.takings, ∃ j, x.source = some j ∧ s.Reported j x.found.entry) ∧
      (s.takings.map (·.source)).Nodup ∧
      (∀ i p w e life reason,
        s.traffic.calls[i]? = some (.begin top w (sharing.share n p)) → sharing.part (max n 1) e.camera = p →
          s.traffic.stack.base.find? e.key = some e → s.traffic.stack.row? top e.key = some life →
            policy.evaluate life s.traffic.stack.clock = some reason → ∀ later a,
              spares sharing n e.key i (s.step sharing n (.go i)) later = true →
                ((s.step sharing n (.go i)).run sharing n later).traffic.calls[i]? = some (.done a) →
                  ∃ found, a = .expired found ∧ ⟨e, reason⟩ ∈ found) ∧
      ∀ i c, s.traffic.calls[i]? = some c → ∀ endless, (∀ m, ∃ m' ≥ m, endless m' = .go i) →
        ∃ m a, (s.after sharing n endless m).traffic.calls[i]? = some (.done a) := by
  intro s top
  have hs : Accounted sharing n s := accounted_run _ moves
  have htame : s.traffic.stack.Tame (lower ++ [policy]) := tame_run _ moves
  have hpolicy : (lower ++ [policy])[lower.length]? = some policy := List.getElem?_concat_length
  refine ⟨fun i found hi => hs.found hi, fun x hx => hs.taken hx, hs.once, ?_, ?_⟩
  · intro i p w e life reason hi hpart he hlife hage later a hspares hdone
    have hbegin : Watched (lower ++ [policy]) lower.length policy s.traffic.stack.clock ⟨e, reason⟩ i
        (s.step sharing n (.go i)) :=
      .of_begin htame hpolicy hi (beq_iff_eq.2 hpart) he ⟨life, hlife, hage⟩
    obtain ⟨-, c, hc, hw⟩ := hbegin.run hpolicy hspares
    rw [hdone] at hc
    cases hc
    rcases hw with ⟨-, hawaits⟩ | hfound
    · cases hawaits
    · cases a with
      | expired found => exact ⟨found, rfl, hfound⟩
      | _ => cases hfound
  · intro i c hi endless hturns
    have hacc := ending_run (lower ++ [policy]) moves c (List.mem_of_getElem? hi)
    exact ends_of_turns hturns hacc (m := 0) hi

/-- A track that has expired when the second of two sweepers begins. -/
def expiredMoves : List (Move String) :=
  [.ask (.report ⟨"a", 1, "x"⟩), .go 0, .go 0, .go 0, .go 0, .setClock (.mk 5000000000),
    .ask (.sweep 1 .ascending)]

/-- The sweep goes on while another track of the same camera is reported, and sweeper 0 sweeps as well. -/
def expiredLater : List (Move String) :=
  [.ask (.report ⟨"a", 2, "y"⟩), .go 1, .go 2, .ask (.sweep 0 .ascending), .go 3, .go 1, .go 2, .go 3, .go 1,
    .go 2, .go 1, .go 2, .go 1, .go 3, .go 1, .go 1, .go 1, .go 1]

def expired : Shift String := (ofPolicies [⟨.ofSeconds 3, .ofSeconds 30⟩]).run .byName 2 expiredMoves

def reported : Shift String :=
  (ofPolicies [⟨.ofSeconds 3, .ofSeconds 30⟩]).run .byName 2 (expiredMoves ++ .go 1 :: expiredLater)

theorem reported_once_and_none_missed_beside :
    ((expired.step .byName 2 (.go 1)).run .byName 2 expiredLater).traffic.calls[1]? =
        some (.done (.expired [⟨⟨⟨"a", by decide⟩, ⟨1⟩, "x"⟩, .inactive⟩])) ∧
      (∃ found, (.expired [⟨⟨⟨"a", by decide⟩, ⟨1⟩, "x"⟩, .inactive⟩] : Answer String) = .expired found ∧
        ⟨⟨⟨"a", by decide⟩, ⟨1⟩, "x"⟩, .inactive⟩ ∈ found) ∧
      [⟨⟨⟨"a", by decide⟩, ⟨1⟩, "x"⟩, .inactive⟩] = (reported.takings.filter (·.sweep == 1)).map (·.found) ∧
      reported.takings.map (·.source) = [some 0] ∧
      ∃ m a, (expired.after .byName 2 (fun _ => .go 1) m).traffic.calls[1]? = some (.done a) := by
  have hbegin : expired.traffic.calls[1]? = some (.begin 1 .ascending (Sharing.byName.share 2 1)) := rfl
  have hdone : ((expired.step .byName 2 (.go 1)).run .byName 2 expiredLater).traffic.calls[1]? =
      some (.done (.expired [⟨⟨⟨"a", by decide⟩, ⟨1⟩, "x"⟩, .inactive⟩])) := rfl
  obtain ⟨-, -, -, hmissed, hends⟩ :=
    reported_once_and_none_missed [] ⟨.ofSeconds 3, .ofSeconds 30⟩ .byName 2 expiredMoves
  obtain ⟨hfound, -⟩ := reported_once_and_none_missed [] ⟨.ofSeconds 3, .ofSeconds 30⟩ .byName 2
    (expiredMoves ++ .go 1 :: expiredLater)
  refine ⟨hdone, ?_, hfound 1 _ hdone, by decide +kernel,
    hends 1 _ hbegin (fun _ => .go 1) fun m => ⟨m, Nat.le_refl m, rfl⟩⟩
  exact hmissed 1 1 .ascending ⟨⟨"a", by decide⟩, ⟨1⟩, "x"⟩ ⟨.mk 0, .mk 0⟩ .inactive hbegin (by decide +kernel)
    (by decide +kernel) (by decide +kernel) (by decide +kernel) expiredLater _ (by decide +kernel) hdone

end Shift

end LiveTracks
