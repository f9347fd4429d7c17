import LiveTracks.Proofs.Coverage

/-!
# Refreshes that are kept, and one that is lost

A report reads the clock and writes its row later. Once it has written its row, no sweep finds the track
inactive before its time, and the row does not go back to an earlier report (`refresh_kept`), unless at that
moment another report of the same track was still to write a row with an earlier reading. Such a report
overtakes itself: it puts its own reading in place of the later one, and the next sweep drops a track that
has just been reported (`refresh_lost`).
-/

namespace LiveTracks

variable {P : Type}

namespace Stage

/-! ### Readings of the clock -/

/-- Whether a report is to write a row with a reading of the clock that the test picks. -/
def holds (f : Nat → Report P → Instant → Bool) : Stage P → Bool
  | .readRow i _ r now | .writeRow i _ r now _ => f i r now
  | .drop _ _ rest | .log _ rest => rest.holds f
  | _ => false

/-- A report of the key that is to write its row in layer `j` with a reading of the clock before `t`. -/
def lags (j : Nat) (key : Key) (t : Instant) : Stage P → Bool :=
  holds fun i r now => i + 1 == j && key.isNamed r.camera r.number && decide (now.nanos < t.nanos)

theorem holds_above (f : Nat → Report P → Instant → Bool) (i k : Nat) (r : Report P) :
    (above i k r).holds f = false := by
  unfold above
  split <;> rfl

theorem holds_ofRequest (f : Nat → Report P → Instant → Bool) (k : Nat) (q : Request P) :
    (ofRequest k q).holds f = false := by
  cases q <;> rfl

theorem holds_of_imp {f g : Nat → Report P → Instant → Bool}
    (hg : ∀ i r now, f i r now = false → g i r now = false) {c : Stage P}
    (h : c.holds f = false) : c.holds g = false := by
  induction c with
  | readRow i k r now => exact hg i r now h
  | writeRow i k r now firstSeen => exact hg i r now h
  | drop i t rest ih => exact ih h
  | log e rest ih => exact ih h
  | _ => rfl

/-- The only new reading is that of the clock as it is. -/
theorem holds_advance {f : Nat → Report P → Instant → Bool} {s : Stack P} {c : Stage P}
    (hf : ∀ i r, f i r s.clock = false) (h : c.holds f = false) :
    (c.advance s).2.holds f = false := by
  fun_cases advance s c <;> first | exact h | rfl | exact holds_above .. | exact hf ..

theorem clock_advance (s : Stack P) (c : Stage P) : (c.advance s).1.clock = s.clock := by
  cases c with
  | writeEntry k r =>
    cases hk : Key.ofRaw r.camera r.number with
    | error e => simp only [advance, Stack.registerAt_of_error hk, Stack.clock_logs]
    | ok key =>
      simp only [advance, Stack.registerAt_of_ok hk, Stack.clock_logs]
      rfl
  | drop i t rest =>
    cases i with
    | zero => cases t <;> rfl
    | succ i => rfl
  | writeRow i k r now firstSeen =>
    simp only [advance]
    split
    · rfl
    · split <;> rfl
  | log | readClock | readRow | begin | done => rfl
  | list | next | fetch =>
    simp only [advance]
    split <;> rfl
  | visit round c rows =>
    cases rows with
    | nil => rfl
    | cons row rows =>
      simp only [advance]
      split
      · rfl
      · split <;> rfl

/-! ### Sweeps -/

/-- While all rows of the key in layer `j` are at least as late as `t`, a sweep that finds the key inactive
reads a clock that has passed the limit since then. -/
def Spares (j : Nat) (key : Key) (t : Instant) (lostTtl : Duration) : Stage P → Prop
  | .next round | .visit round _ _ => round.number = j → round.policy.lostTtl = lostTtl
  | .fetch round c _ track _ reason => round.number = j → round.policy.lostTtl = lostTtl ∧
      (⟨c, track⟩ = key → reason = .inactive → lostTtl.nanos < round.now.nanos - t.nanos)
  | .drop _ _ rest | .log _ rest => rest.Spares j key t lostTtl
  | _ => True

section Spares

variable {j : Nat} {key : Key} {t : Instant} {lostTtl : Duration}

theorem spares_above (i k : Nat) (r : Report P) : (above i k r).Spares j key t lostTtl := by
  unfold above
  split <;> exact trivial

theorem spares_ofRequest (k : Nat) (q : Request P) : (ofRequest k q).Spares j key t lostTtl := by
  cases q <;> exact trivial

theorem spares_advance {s : Stack P} {c : Stage P}
    (hpolicy : ∀ l, s.layer? j = some l → l.policy.lostTtl = lostTtl)
    (hrow : ∀ life, s.row? j key = some life → t.nanos ≤ life.lastSeen.nanos)
    (h : c.Spares j key t lostTtl) : (c.advance s).2.Spares j key t lostTtl := by
  cases c with
  | list k w mine now =>
    simp only [advance]
    cases hl : s.layer? k with
    | none => exact trivial
    | some l =>
      rintro rfl
      exact hpolicy l hl
  | visit round c rows =>
    cases rows with
    | nil => exact h
    | cons row rows =>
      simp only [advance]
      cases hn : row.track.toRaw? with
      | none => exact h
      | some number =>
        dsimp only
        cases he : ((s.layer? round.number).bind (·.lifetime? c.text number)).bind
            (round.policy.evaluate · round.now) with
        | none => exact h
        | some reason =>
          intro hj
          refine ⟨h hj, ?_⟩
          rintro rfl rfl
          obtain ⟨life, hlife, he⟩ := Option.bind_eq_some_iff.1 he
          have hkey : Key.ofRaw c.text number = .ok ⟨c, row.track⟩ :=
            Key.ofRaw_of_toRaw? (k := ⟨c, row.track⟩) hn
          simp only [Layer.lifetime?_of_ok hkey] at hlife
          rw [hj] at hlife
          have hlast := hrow life hlife
          rw [Policy.evaluate_eq_inactive_iff, h hj] at he
          omega
  | fetch round c rows track number reason =>
    simp only [advance]
    split <;> exact fun hj => (h hj).1
  | next round =>
    simp only [advance]
    split
    · exact trivial
    · exact h
  | writeEntry k r =>
    simp only [advance]
    split
    · exact spares_above ..
    · exact trivial
  | writeRow i k r now firstSeen =>
    simp only [advance]
    split
    · exact spares_above ..
    · split
      · exact spares_above ..
      · exact trivial
  | drop i target rest => cases i <;> exact h
  | log e rest => exact h
  | readClock | readRow | begin | done => exact trivial

end Spares

end Stage

/-! ### A clock that does not go back -/

/-- The clock, which shows `now`, is only ever set forward. -/
def Act.forward (now : Instant) : List (Act P) → Bool
  | [] => true
  | .setClock next :: acts => decide (now.nanos ≤ next.nanos) && forward next acts
  | .start _ _ :: acts | .go _ :: acts => forward now acts

namespace Traffic

theorem clock_go (t : Traffic P) (i : Nat) : (t.step (.go i)).stack.clock = t.stack.clock := by
  simp only [step]
  split
  · rfl
  · exact Stage.clock_advance ..

theorem forward_append {t : Traffic P} {a b : List (Act P)}
    (h : Act.forward t.stack.clock (a ++ b) = true) :
    Act.forward t.stack.clock a = true ∧ Act.forward (t.run a).stack.clock b = true := by
  induction a generalizing t with
  | nil => exact ⟨rfl, h⟩
  | cons x a ih =>
    cases x with
    | setClock next =>
      simp only [List.cons_append, Act.forward, Bool.and_eq_true] at h ⊢
      obtain ⟨ha, hb⟩ := ih (t := t.step (.setClock next)) h.2
      exact ⟨⟨h.1, ha⟩, hb⟩
    | start k q => exact ih (t := t.step (.start k q)) h
    | go i =>
      simp only [List.cons_append, Act.forward] at h ⊢
      rw [← clock_go t i] at h ⊢
      exact ih h

/-- What holds at first and is kept by every act while the clock goes forward holds after all acts. -/
theorem run_forward {q : Traffic P → Prop}
    (hset : ∀ t now, q t → t.stack.clock.nanos ≤ now.nanos → q (t.step (.setClock now)))
    (hstart : ∀ t k r, q t → q (t.step (.start k r))) (hgo : ∀ t i, q t → q (t.step (.go i)))
    {t : Traffic P} {acts : List (Act P)} (hf : Act.forward t.stack.clock acts = true) (h : q t) :
    q (t.run acts) := by
  induction acts generalizing t with
  | nil => exact h
  | cons a acts ih =>
    cases a with
    | setClock now =>
      simp only [Act.forward, Bool.and_eq_true, decide_eq_true_eq] at hf
      exact ih hf.2 (hset t now h hf.1)
    | start k r => exact ih hf (hstart t k r h)
    | go i =>
      simp only [Act.forward] at hf
      rw [← clock_go t i] at hf
      exact ih hf (hgo t i h)

/-! ### The readings of calls under way -/

/-- No call has a reading of the clock that lies ahead of it. -/
def Timely (t : Traffic P) : Prop :=
  ∀ c ∈ t.calls, c.holds (fun _ _ now => decide (t.stack.clock.nanos < now.nanos)) = false

theorem mem_step_go {t : Traffic P} {i : Nat} {c' : Stage P} (h : c' ∈ (t.step (.go i)).calls) :
    c' ∈ t.calls ∨ ∃ c, t.calls[i]? = some c ∧ c' = (c.advance t.stack).2 := by
  simp only [step] at h
  split at h
  · exact .inl h
  · rename_i c hi
    exact (List.mem_or_eq_of_mem_set h).imp_right fun he => ⟨c, hi, he⟩

theorem Timely.go {t : Traffic P} (h : t.Timely) (i : Nat) : (t.step (.go i)).Timely := by
  intro c' hc'
  rw [clock_go]
  rcases mem_step_go hc' with hc' | ⟨c, hi, rfl⟩
  · exact h c' hc'
  · exact Stage.holds_advance (by simp) (h c (List.mem_of_getElem? hi))

theorem Timely.setClock {t : Traffic P} (h : t.Timely) {now : Instant}
    (hnow : t.stack.clock.nanos ≤ now.nanos) : (t.step (.setClock now)).Timely := by
  intro c hc
  refine Stage.holds_of_imp (fun i r read hread => ?_) (h c hc)
  simp only [decide_eq_false_iff_not, Nat.not_lt] at hread ⊢
  exact Nat.le_trans hread hnow

theorem Timely.start {t : Traffic P} (h : t.Timely) (k : Nat) (q : Request P) :
    (t.step (.start k q)).Timely := by
  intro c hc
  rcases List.mem_append.1 hc with hc | hc
  · exact h c hc
  · rw [List.mem_singleton.1 hc]
    exact Stage.holds_ofRequest ..

theorem timely_run (policies : List Policy) {acts : List (Act P)}
    (hf : Act.forward ⟨0⟩ acts = true) : ((ofPolicies policies).run acts).Timely := by
  refine run_forward (t := ofPolicies policies) (fun t now h hnow => h.setClock hnow)
    (fun t k q h => h.start k q) (fun t i h => h.go i) hf ?_
  intro c hc
  cases hc

theorem tame_step {policies : List Policy} {t : Traffic P} (h : t.stack.Tame policies) (a : Act P) :
    (t.step a).stack.Tame policies := by
  cases a with
  | setClock now => exact h.of_same rfl rfl
  | start k q => exact h
  | go i =>
    simp only [step]
    split
    · exact h
    · exact h.advance _

theorem tame_run (policies : List Policy) (acts : List (Act P)) :
    ((ofPolicies policies).run acts).stack.Tame policies := by
  apply List.foldlRecOn (motive := fun t : Traffic P => t.stack.Tame policies) _ _
    (good_ofPolicies policies).tame
  intro t ht a _
  exact tame_step ht a

/-! ### A track that has been refreshed -/

/-- The key was reported in layer `j` at `seen` or later, and nothing under way is to undo this. The calls from
number `first` on were made afterwards. -/
structure Fresh (policies : List Policy) (j : Nat) (key : Key) (seen : Instant) (lostTtl : Duration)
    (first : Nat) (t : Traffic P) : Prop where
  tame : t.stack.Tame policies
  clock : seen.nanos ≤ t.stack.clock.nanos
  row : ∀ life, t.stack.row? j key = some life → seen.nanos ≤ life.lastSeen.nanos
  lags : ∀ c ∈ t.calls, c.lags j key seen = false
  started : first ≤ t.calls.length
  spares : ∀ i c, first ≤ i → t.calls[i]? = some c → c.Spares j key seen lostTtl

namespace Fresh

variable {policies : List Policy} {j first : Nat} {key : Key} {seen : Instant} {lostTtl : Duration}
  {t : Traffic P}

theorem setClock (h : Fresh policies j key seen lostTtl first t) {now : Instant}
    (hnow : t.stack.clock.nanos ≤ now.nanos) :
    Fresh policies j key seen lostTtl first (t.step (.setClock now)) where
  tame := tame_step h.tame _
  clock := Nat.le_trans h.clock hnow
  row := h.row
  lags := h.lags
  started := h.started
  spares := h.spares

theorem start (h : Fresh policies j key seen lostTtl first t) (k : Nat) (q : Request P) :
    Fresh policies j key seen lostTtl first (t.step (.start k q)) where
  tame := tame_step h.tame _
  clock := h.clock
  row := h.row
  lags c hc := by
    rcases List.mem_append.1 hc with hc | hc
    · exact h.lags c hc
    · rw [List.mem_singleton.1 hc]
      exact Stage.holds_ofRequest ..
  started := by
    simp only [step, List.length_append]
    exact Nat.le_add_right_of_le h.started
  spares i c hi hc := by
    simp only [step] at hc
    rcases Nat.lt_or_ge i t.calls.length with hlt | hge
    · rw [List.getElem?_append_left hlt] at hc
      exact h.spares i c hi hc
    · rw [List.getElem?_append_right hge] at hc
      rw [List.mem_singleton.1 (List.mem_of_getElem? hc)]
      exact Stage.spares_ofRequest ..

/-- A row of the key is only written with a reading that does not lag behind. -/
theorem row_advance (h : Fresh policies j key seen lostTtl first t) {c : Stage P}
    (hc : c ∈ t.calls) {life : Lifetime} (hlife : (c.advance t.stack).1.row? j key = some life) :
    seen.nanos ≤ life.lastSeen.nanos := by
  cases Stage.access t.stack c with
  | entry k r key' hc' _ _ _ hr => exact h.row life (hr j key ▸ hlife)
  | row i k r now firstSeen key' hc' _ hk _ hr =>
    rw [hr] at hlife
    split at hlife
    · rename_i hw
      obtain ⟨rfl, -, rfl⟩ := hw
      cases hlife
      have hlag := h.lags c hc
      have hnamed : key.isNamed r.camera r.number = true := Key.isNamed_iff.2 hk
      simp only [hc', Stage.lags, Stage.holds, BEq.rfl, hnamed, Bool.true_and,
        decide_eq_false_iff_not, Nat.not_lt] at hlag
      exact hlag
    · exact h.row life hlife
  | dropRows i target rest hc' _ _ hr =>
    rw [hr] at hlife
    split at hlife
    · cases hlife
    · exact h.row life hlife
  | dropEntries target rest hc' _ _ hr => exact h.row life (hr j key ▸ hlife)
  | quiet _ hr _ => exact h.row life (hr j key ▸ hlife)

theorem go (h : Fresh policies j key seen lostTtl first t)
    (hpolicy : ∀ l, t.stack.layer? j = some l → l.policy.lostTtl = lostTtl) (i : Nat) :
    Fresh policies j key seen lostTtl first (t.step (.go i)) where
  tame := tame_step h.tame _
  clock := by
    rw [clock_go]
    exact h.clock
  row life hlife := by
    simp only [step] at hlife
    split at hlife
    · exact h.row life hlife
    · rename_i c hi
      exact h.row_advance (List.mem_of_getElem? hi) hlife
  lags c' hc' := by
    rcases mem_step_go hc' with hc' | ⟨c, hi, rfl⟩
    · exact h.lags c' hc'
    · refine Stage.holds_advance (fun i r => ?_) (h.lags c (List.mem_of_getElem? hi))
      have hclock := h.clock
      simp [Nat.not_lt.2 hclock]
  started := by
    simp only [step]
    split
    · exact h.started
    · simpa using h.started
  spares i' c' hi' hc' := by
    simp only [step] at hc'
    split at hc'
    · exact h.spares i' c' hi' hc'
    · rename_i c hi
      by_cases hii : i = i'
      · subst hii
        rw [List.getElem?_set_self (List.getElem?_eq_some_iff.1 hi).1] at hc'
        cases hc'
        exact Stage.spares_advance hpolicy h.row (h.spares i c hi' hi)
      · rw [List.getElem?_set_ne hii] at hc'
        exact h.spares i' c' hi' hc'

end Fresh

theorem lostTtl_of_tame {policies : List Policy} {s : Stack P} (h : s.Tame policies) {j : Nat}
    {policy : Policy} (hp : policies[j]? = some policy) {l : Layer}
    (hl : s.layer? (j + 1) = some l) : l.policy.lostTtl = policy.lostTtl :=
  congrArg Policy.lostTtl (h.layer hp hl).1

/-- Once a report of a key has written its row with a reading of the clock, and no other report of the key
is to write this row with an earlier reading, then whatever is called afterwards: the row does not go
back behind this reading, and a sweep that is started later finds the key inactive only when the limit
has passed since the reading. -/
theorem refresh_kept (policies : List Policy) (acts later : List (Act P)) {i j k : Nat}
    {r : Report P} {seen firstSeen : Instant} {key : Key} {policy : Policy}
    (hpolicy : policies[j]? = some policy)
    (hforward : Act.forward ⟨0⟩ (acts ++ .go i :: later) = true)
    (hwrite : ((ofPolicies policies).run acts).calls[i]? = some (.writeRow j k r seen firstSeen))
    (hkey : Key.ofRaw r.camera r.number = .ok key)
    (hlags : ∀ c ∈ ((ofPolicies policies).run acts).calls, c.lags (j + 1) key seen = false) :
    let noted := ((ofPolicies policies).run acts).step (.go i)
    let t := noted.run later
    noted.stack.row? (j + 1) key = some ⟨firstSeen, seen⟩ ∧
      (∀ life, t.stack.row? (j + 1) key = some life → seen.nanos ≤ life.lastSeen.nanos) ∧
      ∀ i' round c rows track number, noted.calls.length ≤ i' →
        t.calls[i']? = some (.fetch round c rows track number .inactive) →
          round.number = j + 1 → ⟨c, track⟩ = key →
            policy.lostTtl.nanos < round.now.nanos - seen.nanos := by
  intro noted t
  obtain ⟨hacts, hrest⟩ := forward_append (t := ofPolicies policies) hforward
  have htame := tame_run policies acts
  have hclock : seen.nanos ≤ ((ofPolicies policies).run acts).stack.clock.nanos := by
    have htimely := timely_run policies hacts _ (List.mem_of_getElem? hwrite)
    simpa [Stage.holds] using htimely
  have hrow : noted.stack.row? (j + 1) key = some ⟨firstSeen, seen⟩ := by
    have hj : j < ((ofPolicies policies).run acts).stack.layers.length :=
      Nat.lt_of_lt_of_eq (List.getElem?_eq_some_iff.1 hpolicy).1 htame.depth.symm
    have hl := List.getElem?_eq_getElem hj
    simp only [noted, step, hwrite, Stage.advance, hl, Store.register, hkey, Except.map]
    rw [Stack.row?_set hl rfl, if_pos ⟨rfl, rfl⟩]
  have hfresh : Fresh policies (j + 1) key seen policy.lostTtl noted.calls.length noted := by
    refine ⟨tame_step htame _, ?_, ?_, ?_, Nat.le_refl _, ?_⟩
    · simp only [noted, clock_go]
      exact hclock
    · intro life hlife
      cases hrow.symm.trans hlife
      exact Nat.le_refl _
    · intro c' hc'
      rcases mem_step_go hc' with hc' | ⟨c, hi, rfl⟩
      · exact hlags c' hc'
      · exact Stage.holds_advance (fun i r => by simp [Nat.not_lt.2 hclock])
          (hlags c (List.mem_of_getElem? hi))
    · intro i' c hi' hc
      exact absurd (List.getElem?_eq_some_iff.1 hc).1 (Nat.not_lt.2 hi')
  have hlater : Act.forward noted.stack.clock later = true := by
    simp only [noted, clock_go]
    exact hrest
  have ht : Fresh policies (j + 1) key seen policy.lostTtl noted.calls.length t :=
    run_forward (fun t now h hnow => h.setClock hnow) (fun t k q h => h.start k q)
      (fun t i h => h.go (fun l hl => lostTtl_of_tame h.tame hpolicy hl) i) hlater hfresh
  refine ⟨hrow, ht.row, ?_⟩
  intro i' round c rows track number hi' hc hnumber hkey'
  exact ((ht.spares i' _ hi' hc) hnumber).2 hkey' rfl

/-- Two reports of one track, the second of which begins when the first has written its row, and a sweep
that is started then. -/
def keptActs : List (Act String) :=
  [.start 1 (.register ⟨"north", 1, "a"⟩), .go 0, .go 0, .go 0, .go 0, .setClock (.mk 10000000000),
    .start 1 (.register ⟨"north", 1, "b"⟩), .go 1, .go 1, .go 1]

def keptLater : List (Act String) :=
  [.setClock (.mk 12000000000), .start 1 (.register ⟨"north", 1, "c"⟩), .go 2, .go 2,
    .start 1 (.sweep .ascending fun _ => true), .go 3, .go 3, .go 3, .go 3, .go 2, .go 2]

def kept : Traffic String :=
  (((ofPolicies [⟨.ofSeconds 3, .ofSeconds 30⟩]).run keptActs).step (.go 1)).run keptLater

theorem refresh_kept_twice :
    Act.forward ⟨0⟩ (keptActs ++ .go 1 :: keptLater) = true ∧
      kept.stack.row? 1 ⟨⟨"north", by decide⟩, ⟨1⟩⟩ = some ⟨.mk 0, .mk 12000000000⟩ ∧
      (Instant.mk 10000000000).nanos ≤ (Instant.mk 12000000000).nanos := by
  have hforward : Act.forward ⟨0⟩ (keptActs ++ .go 1 :: keptLater) = true := by decide
  have hkey : Key.ofRaw "north" 1 = .ok ⟨⟨"north", by decide⟩, ⟨1⟩⟩ := by decide
  have hlags : ∀ c ∈ ((ofPolicies [⟨.ofSeconds 3, .ofSeconds 30⟩]).run keptActs).calls,
      c.lags 1 ⟨⟨"north", by decide⟩, ⟨1⟩⟩ (.mk 10000000000) = false := by decide +kernel
  have hrow : kept.stack.row? 1 ⟨⟨"north", by decide⟩, ⟨1⟩⟩ = some ⟨.mk 0, .mk 12000000000⟩ := by
    decide +kernel
  have h := refresh_kept [⟨.ofSeconds 3, .ofSeconds 30⟩] keptActs keptLater (j := 0) rfl hforward
    (r := ⟨"north", 1, "b"⟩) rfl hkey hlags
  exact ⟨hforward, hrow, h.2.1 _ hrow⟩

/-- A report that has read the clock and is then overtaken by another one of the same track. -/
def overtakenActs : List (Act String) :=
  [.start 1 (.register ⟨"north", 1, "a"⟩), .go 0, .go 0, .go 0, .setClock (.mk 10000000000),
    .start 1 (.register ⟨"north", 1, "b"⟩), .go 1, .go 1, .go 1, .go 1]

def overtakenSweep : List (Act String) :=
  [.go 0, .start 1 (.sweep .ascending fun _ => true), .go 2, .go 2, .go 2, .go 2, .go 2, .go 2, .go 2, .go 2,
    .go 2, .go 2]

def overtaken : Traffic String := (ofPolicies [⟨.ofSeconds 3, .ofSeconds 30⟩]).run overtakenActs

/-- The second report has returned at 10 s. Then the first one writes its row, and a sweep at 10 s drops the
track as inactive. -/
theorem refresh_lost :
    Act.forward ⟨0⟩ (overtakenActs ++ overtakenSweep) = true ∧
      overtaken.calls[1]? = some (.done .done) ∧
      (overtaken.stack.row? 1 ⟨⟨"north", by decide⟩, ⟨1⟩⟩).map (·.lastSeen) = some (.mk 10000000000) ∧
      ((overtaken.step (.go 0)).stack.row? 1 ⟨⟨"north", by decide⟩, ⟨1⟩⟩).map (·.lastSeen) =
        some (.mk 0) ∧
      (overtaken.run overtakenSweep).stack.clock = .mk 10000000000 ∧
      (overtaken.run overtakenSweep).calls[2]? =
        some (.done (.expired [⟨⟨⟨"north", by decide⟩, ⟨1⟩, "b"⟩, .inactive⟩])) :=
  ⟨by decide, rfl, by decide +kernel, by decide +kernel, rfl, rfl⟩

end Traffic

end LiveTracks
