import LiveTracks.Proofs.CallEffect
import LiveTracks.Proofs.SessionDeeds

/-!
# What sweeps take away

A sweep reports just what it took away, in this order (`sweepWhere_snd`), and nothing is taken away by a sweep
that is not stored at that moment, with a row that has passed a limit at that moment (`truthful_deeds`). A
track that was reported anew in the midst of a sweep is no exception, because rows are looked up again.
-/

namespace LiveTracks

variable {σ α P : Type}

/-- What a dropping of a sweep has found. -/
def Deed.found? : Deed P → Option (Expired P)
  | .reap _ _ _ x => some x
  | _ => none

namespace Stack

/-- A dropping of a sweep finds a stored track whose row has passed a limit. -/
def Finds (s : Stack P) : Deed P → Prop
  | .reap k camera track x =>
    Key.ofRaw camera track = .ok x.entry.key ∧ s.expired? k x.entry.key = some x
  | _ => True

/-- So does every dropping of a sweep among the deeds, at its time. -/
def Truthful (s : Stack P) : List (Deed P) → Prop
  | [] => True
  | d :: deeds => s.Finds d ∧ (s.perform d).Truthful deeds

theorem finds_of_found? {s : Stack P} {d : Deed P} (h : d.found? = none) : s.Finds d := by
  cases d with
  | reap k camera track x => cases h
  | report | drop | forget | log | setLog | setClock | setArmed => trivial

theorem truthful_of_found? {s : Stack P} {deeds : List (Deed P)}
    (h : ∀ d ∈ deeds, d.found? = none) : s.Truthful deeds := by
  induction deeds generalizing s with
  | nil => trivial
  | cons d deeds ih =>
    exact ⟨finds_of_found? (h d List.mem_cons_self), ih fun d' hd => h d' (List.mem_cons_of_mem d hd)⟩

theorem truthful_append {s : Stack P} {a b : List (Deed P)} :
    s.Truthful (a ++ b) ↔ s.Truthful a ∧ (s.after a).Truthful b := by
  induction a generalizing s with
  | nil => simp [Truthful]
  | cons d a ih => simp only [List.cons_append, Truthful, ih, after_cons, and_assoc]

/-! ### Loops -/

section Loop

variable (f : σ → α → σ) (deeds : σ → α → List (Deed P))

theorem mem_loopDeeds {d : Deed P} {acc : σ} {l : List α} (h : d ∈ loopDeeds f deeds acc l) :
    ∃ acc x, d ∈ deeds acc x := by
  induction l generalizing acc with
  | nil => cases h
  | cons x l ih =>
    rcases List.mem_append.1 h with h | h
    · exact ⟨acc, x, h⟩
    · exact ih h

theorem truthful_loopDeeds (stack : σ → Stack P) (inv : σ → Prop)
    (hstack : ∀ acc x, stack (f acc x) = (stack acc).after (deeds acc x))
    (hinv : ∀ acc x, inv acc → inv (f acc x))
    (h : ∀ acc x, inv acc → (stack acc).Truthful (deeds acc x)) (acc : σ) (hacc : inv acc)
    (l : List α) : (stack acc).Truthful (loopDeeds f deeds acc l) := by
  induction l generalizing acc with
  | nil => trivial
  | cons x l ih =>
    refine truthful_append.2 ⟨h acc x hacc, ?_⟩
    rw [← hstack]
    exact ih (f acc x) (hinv acc x hacc)

theorem foldl_eq_append_found? (found : σ → List (Expired P))
    (h : ∀ acc x, found (f acc x) = found acc ++ (deeds acc x).filterMap Deed.found?) (acc : σ)
    (l : List α) :
    found (l.foldl f acc) = found acc ++ (loopDeeds f deeds acc l).filterMap Deed.found? := by
  induction l generalizing acc with
  | nil => simp [loopDeeds]
  | cons x l ih =>
    rw [List.foldl_cons, ih, h, loopDeeds, List.filterMap_append, List.append_assoc]

end Loop

/-! ### What a sweep goes by -/

theorem clock_registerAt (s : Stack P) (k : Nat) (r : Report P) :
    (s.registerAt k r).1.clock = s.clock := by
  unfold registerAt
  split <;> rfl

theorem clock_removeAt (s : Stack P) (k : Nat) (camera : String) (number : Int64) :
    (s.removeAt k camera number).clock = s.clock := by
  rw [removeAt_eq, fireAbove, fire]
  split
  · rfl
  · split
    · exact clock_registerAt _ _ _
    · rfl

theorem clock_visitRow (k : Nat) (policy : Policy) (now : Instant) (c : CameraId)
    (acc : Stack P × List (Expired P)) (row : Entry Lifetime) :
    (visitRow k policy now c acc row).1.clock = acc.1.clock := by
  unfold visitRow
  split
  · rfl
  · split
    · rfl
    · split
      · rfl
      · dsimp only
        split
        · exact clock_removeAt _ _ _ _
        · exact clock_removeAt _ _ _ _

/-- All along, a sweep goes by the policy and the reading of the clock that it began with. -/
def Sweeping (k : Nat) (policy : Policy) (now : Instant) (s : Stack P) : Prop :=
  (s.layer? k).map (·.policy) = some policy ∧ s.clock = now

theorem policy_visitRow (k : Nat) (policy : Policy) (now : Instant) (c : CameraId)
    (acc : Stack P × List (Expired P)) (row : Entry Lifetime) :
    ((visitRow k policy now c acc row).1.layer? k).map (·.policy) =
      (acc.1.layer? k).map (·.policy) := by
  have h := (inductive_policies (acc.1.layers.map (·.policy))).visitRow k policy now c acc row rfl
  cases k with
  | zero => rfl
  | succ k =>
    have hk := congrArg (·[k]?) h
    simp only [List.getElem?_map] at hk
    exact hk

section Sweep

variable {k : Nat} {policy : Policy} {now : Instant}

theorem Sweeping.visitRow {acc : Stack P × List (Expired P)} (h : Sweeping k policy now acc.1)
    (c : CameraId) (row : Entry Lifetime) :
    Sweeping k policy now (visitRow k policy now c acc row).1 :=
  ⟨(policy_visitRow k policy now c acc row).trans h.1, (clock_visitRow k policy now c acc row).trans h.2⟩

theorem Sweeping.visitCamera {acc : Stack P × List (Expired P)} (h : Sweeping k policy now acc.1)
    (w : Walk) (c : CameraId) : Sweeping k policy now (visitCamera k w policy now acc c).1 := by
  unfold Stack.visitCamera
  apply List.foldlRecOn (motive := fun acc : Stack P × List (Expired P) => Sweeping k policy now acc.1) _ _ h
  intro acc ha row hrow
  exact ha.visitRow c row

/-! ### What a sweep does -/

theorem found?_fireDeeds (s : Stack P) (k : Nat) : ∀ d ∈ s.fireDeeds k, d.found? = none := by
  intro d hd
  unfold fireDeeds at hd
  split at hd
  · cases hd
  · split at hd
    · simp only [List.mem_cons, List.not_mem_nil, or_false] at hd
      rcases hd with rfl | rfl <;> rfl
    · cases hd

theorem found?_removeDeeds (s : Stack P) (k : Nat) (camera : String) (track : Int64) :
    ∀ d ∈ s.removeDeeds k camera track, d.found? = none := by
  intro d hd
  rcases List.mem_cons.1 hd with rfl | hd
  · rfl
  · exact found?_fireDeeds _ k d hd

theorem found?_clearDeeds (s : Stack P) (k : Nat) (camera : String) :
    ∀ d ∈ s.clearDeeds k camera, d.found? = none := by
  intro d hd
  rcases List.mem_cons.1 hd with rfl | hd
  · rfl
  · exact found?_fireDeeds _ k d hd

theorem filterMap_found? {deeds : List (Deed P)} (h : ∀ d ∈ deeds, d.found? = none) :
    deeds.filterMap Deed.found? = [] :=
  List.filterMap_eq_nil_iff.2 h

theorem due?_eq_some {s : Stack P} {c : CameraId} {row : Entry Lifetime} {number : Int64}
    {reason : Reason} (hs : Sweeping k policy now s)
    (h : s.due? k policy now c row = some (number, reason)) :
    Key.ofRaw c.text number = .ok ⟨c, row.track⟩ ∧ s.verdict? k ⟨c, row.track⟩ = some reason := by
  obtain ⟨number', hn, h⟩ := Option.bind_eq_some_iff.1 h
  obtain ⟨life, hlife, h⟩ := Option.bind_eq_some_iff.1 h
  obtain ⟨reason', hr, h⟩ := Option.map_eq_some_iff.1 h
  cases h
  obtain ⟨l, hl, hlife⟩ := Option.bind_eq_some_iff.1 hlife
  have hkey : Key.ofRaw c.text number = .ok ⟨c, row.track⟩ := Key.ofRaw_of_toRaw? (k := ⟨c, row.track⟩) hn
  rw [Layer.lifetime?_of_ok hkey] at hlife
  obtain ⟨stored, hstored, rfl⟩ := Option.map_eq_some_iff.1 hlife
  obtain ⟨hpolicy, hclock⟩ := hs
  rw [hl] at hpolicy
  have hp : l.policy = policy := Option.some.inj hpolicy
  refine ⟨hkey, ?_⟩
  rw [verdict?, hl, Option.bind_some, hstored, Option.bind_some, hp, hclock]
  exact hr

theorem truthful_visitDeeds {acc : Stack P × List (Expired P)} (h : Sweeping k policy now acc.1)
    (c : CameraId) (row : Entry Lifetime) :
    acc.1.Truthful (visitDeeds k policy now c acc row) := by
  unfold visitDeeds
  cases hdue : acc.1.due? k policy now c row with
  | none => trivial
  | some due =>
    obtain ⟨number, reason⟩ := due
    obtain ⟨hkey, hverdict⟩ := due?_eq_some h hdue
    dsimp only
    cases hget : acc.1.get? c.text number with
    | none => exact truthful_of_found? (found?_removeDeeds _ _ _ _)
    | some entry =>
      -- the entry was taken before the row and the track are dropped
      simp only [get?, Store.get?, hkey] at hget
      have hentry := Store.key_of_find? hget
      refine ⟨⟨hkey.trans (hentry ▸ rfl), ?_⟩, truthful_of_found? fun d hd => ?_⟩
      · exact expired?_eq_some_iff.2 ⟨rfl, hentry ▸ hget, hentry ▸ hverdict⟩
      · rcases List.mem_append.1 hd with hd | hd
        · exact found?_fireDeeds _ k d hd
        · rw [List.mem_singleton.1 hd]
          rfl

theorem truthful_cameraDeeds (w : Walk) {acc : Stack P × List (Expired P)}
    (h : Sweeping k policy now acc.1) (c : CameraId) :
    acc.1.Truthful (cameraDeeds k w policy now acc c) :=
  truthful_loopDeeds _ _ Prod.fst (fun acc => Sweeping k policy now acc.1)
    (visitRow_eq_after k policy now c) (fun _ row h => h.visitRow c row)
    (fun _ row h => truthful_visitDeeds h c row) acc h _

theorem truthful_sweepDeeds (s : Stack P) (k : Nat) (w : Walk) (mine : CameraId → Bool) :
    s.Truthful (s.sweepDeeds k w mine) := by
  unfold sweepDeeds
  cases hl : s.layer? k with
  | none => trivial
  | some l =>
    have h : Sweeping k l.policy s.clock s := ⟨by rw [hl]; rfl, rfl⟩
    exact truthful_loopDeeds _ _ Prod.fst (fun acc => Sweeping k l.policy s.clock acc.1)
      (visitCamera_eq_after k w l.policy s.clock) (fun _ c h => h.visitCamera w c)
      (fun _ c h => truthful_cameraDeeds w h c) (s, []) h _

theorem visitRow_snd (k : Nat) (policy : Policy) (now : Instant) (c : CameraId)
    (acc : Stack P × List (Expired P)) (row : Entry Lifetime) :
    (visitRow k policy now c acc row).2 =
      acc.2 ++ (visitDeeds k policy now c acc row).filterMap Deed.found? := by
  unfold visitRow visitDeeds due?
  cases row.track.toRaw? with
  | none => simp
  | some number =>
    cases hl : (acc.1.layer? k).bind (·.lifetime? c.text number) with
    | none => simp [hl]
    | some life =>
      cases he : policy.evaluate life now with
      | none => simp [hl, he]
      | some reason =>
        cases hg : acc.1.get? c.text number with
        | none => simp [hl, he, hg, filterMap_found? (found?_removeDeeds _ _ _ _)]
        | some entry =>
          simp [hl, he, hg, filterMap_found? (found?_fireDeeds _ _), Deed.found?]

/-- A sweep reports what it took away, and in this order. -/
theorem sweepWhere_snd (s : Stack P) (k : Nat) (w : Walk) (mine : CameraId → Bool) :
    (s.sweepWhere k w mine).2 = (s.sweepDeeds k w mine).filterMap Deed.found? := by
  unfold sweepWhere sweepDeeds
  cases s.layer? k with
  | none => rfl
  | some l =>
    have hcamera : ∀ (acc : Stack P × List (Expired P)) c,
        (visitCamera k w l.policy s.clock acc c).2 =
          acc.2 ++ (cameraDeeds k w l.policy s.clock acc c).filterMap Deed.found? := fun acc c =>
      foldl_eq_append_found? _ _ Prod.snd (visitRow_snd k l.policy s.clock c) acc _
    have hfound := foldl_eq_append_found? _ _ Prod.snd hcamera (s, [])
    exact (hfound _).trans (List.nil_append _)

end Sweep

theorem truthful_callDeeds (s : Stack P) (w : Walk) (sharing : Sharing) (k : Nat) (c : Call P) :
    s.Truthful (s.callDeeds w sharing k c) := by
  cases c with
  | remove camera track => exact truthful_of_found? (s.found?_removeDeeds k camera track)
  | clear camera => exact truthful_of_found? (s.found?_clearDeeds k camera)
  | sweep => exact s.truthful_sweepDeeds k w _
  | sweepPart part parts => exact s.truthful_sweepDeeds k w _
  | register | setClock | arm => exact ⟨trivial, trivial⟩
  | get | getByCamera | count | census => trivial

/-! ### Finishers -/

theorem found?_absorbDeeds (s : Stack P) (h : Handling P) : ∀ d ∈ s.absorbDeeds h, d.found? = none := by
  intro d hd
  rcases List.mem_append.1 hd with hd | hd
  · obtain ⟨s', r, hd⟩ := mem_loopDeeds _ _ hd
    rw [List.mem_singleton.1 hd]
    rfl
  · rw [List.mem_singleton.1 hd]
    rfl

theorem found?_handOverDeeds (f : Finisher σ P) (state : σ) (s : Stack P) (found : List (Expired P)) :
    ∀ d ∈ s.handOverDeeds f state found, d.found? = none := by
  induction found generalizing state s with
  | nil => exact fun d hd => nomatch hd
  | cons x rest ih =>
    intro d hd
    rcases List.mem_append.1 hd with hd | hd
    · exact found?_absorbDeeds s _ d hd
    · split at hd
      · exact ih _ _ d hd
      · rcases List.mem_cons.1 hd with rfl | hd
        · rfl
        · exact ih _ _ d hd
      · cases hd

end Stack

open Stack

namespace Service

theorem truthful_sweepOnceDeeds (v : Service σ P) (f : Finisher σ P) (w : Walk) :
    v.stack.Truthful (v.sweepOnceDeeds f w) :=
  truthful_append.2 ⟨truthful_sweepDeeds _ _ _ _, truthful_of_found? (found?_handOverDeeds _ _ _ _)⟩

theorem truthful_roundDeeds (v : Service σ P) (f : Finisher σ P) (w : Walk) (sharing : Sharing)
    (i : Nat) : v.stack.Truthful (v.roundDeeds f w sharing i) := by
  unfold roundDeeds
  split
  · exact truthful_append.2
      ⟨truthful_sweepDeeds _ _ _ _, truthful_of_found? (found?_handOverDeeds _ _ _ _)⟩
  · trivial

theorem truthful_roundsDeeds (v : Service σ P) (f : Finisher σ P) (w : Walk) (sharing : Sharing) :
    v.stack.Truthful (v.roundsDeeds f w sharing) :=
  truthful_loopDeeds _ _ (·.stack) (fun _ => True) (fun v i => v.round_eq_after f w sharing i)
    (fun _ _ h => h) (fun v i _ => v.truthful_roundDeeds f w sharing i) v trivial _

end Service

namespace Session

theorem truthful_sweepPartsDeeds (w : Walk) (sharing : Sharing) (s : Stack String)
    (k parts p left : Nat) : s.Truthful (sweepPartsDeeds w sharing s k parts p left) := by
  induction left generalizing s p with
  | zero => trivial
  | succ left ih =>
    refine truthful_append.2 ⟨s.truthful_sweepDeeds k w _, ?_⟩
    have hs : s.after (s.partDeeds k w sharing p parts) = (s.sweepPart k w sharing p parts).1 :=
      (s.sweepPart_eq_after k w sharing p parts).symm
    rw [hs]
    exact ih _ _

theorem found?_clearTimesDeeds (k : Nat) (s : Stack String) (camera : String) (n : Nat) :
    ∀ d ∈ clearTimesDeeds k s camera n, d.found? = none := by
  induction n generalizing s with
  | zero => exact fun d hd => nomatch hd
  | succ n ih =>
    intro d hd
    rcases List.mem_append.1 hd with hd | hd
    · exact s.found?_clearDeeds k camera d hd
    · exact ih _ d hd

theorem found?_registerListsDeeds (k : Nat) (lists : List (List (Report String))) :
    ∀ d ∈ registerListsDeeds k lists, d.found? = none := by
  intro d hd
  obtain ⟨reports, -, hd⟩ := List.mem_flatMap.1 hd
  obtain ⟨r, -, rfl⟩ := List.mem_map.1 hd
  rfl

theorem found?_contendDeeds (k : Nat) (s : Stack String) (camera : String)
    (writers each clears : Nat) :
    ∀ d ∈ contendDeeds k s camera writers each clears, d.found? = none := by
  intro d hd
  simp only [contendDeeds, List.mem_append, List.mem_singleton] at hd
  rcases hd with ((hd | hd) | hd) | rfl
  · exact found?_registerListsDeeds k _ d hd
  · exact found?_clearTimesDeeds k _ camera clears d hd
  · exact found?_clearDeeds _ k camera d hd
  · rfl

theorem truthful_backgroundDeeds (w : Walk) (sharing : Sharing) (expected : Nat)
    (v : Service (Outlet String) String) :
    v.stack.Truthful (backgroundDeeds w sharing expected v) := by
  unfold backgroundDeeds
  by_cases he : expected = 0
  · simp only [he, if_true, List.append_nil]
    exact truthful_append.2 ⟨⟨trivial, trivial⟩, ⟨trivial, trivial⟩⟩
  · simp only [he, if_false]
    refine truthful_append.2 ⟨truthful_append.2 ⟨⟨trivial, trivial⟩, ?_⟩, ⟨trivial, trivial⟩⟩
    exact v.start.truthful_roundsDeeds Outlet.finish w sharing

theorem truthful_serveDeeds (s : Session) {deeds : Service (Outlet String) String → List (Deed String)}
    (h : ∀ v : Service (Outlet String) String, v.stack.Truthful (deeds v)) :
    s.stack.Truthful (s.serveDeeds deeds) := by
  unfold serveDeeds
  cases s.outlet with
  | none => trivial
  | some o => exact h (s.service o)

theorem truthful_turnDeeds (s : Session) (now : Instant) : s.stack.Truthful (s.turnDeeds now) := by
  unfold turnDeeds
  cases s.source with
  | dial => exact ⟨trivial, trivial⟩
  | machine dial => trivial

theorem truthful_runDeeds (w : Walk) (sharing : Sharing) (s : Session) (k : Nat) (c : Command) :
    s.stack.Truthful (s.runDeeds w sharing k c) := by
  cases c with
  | call c => exact s.stack.truthful_callDeeds w sharing k c
  | logSummary => exact ⟨trivial, trivial⟩
  | advance d => exact s.truthful_turnDeeds _
  | setDial now => exact s.truthful_turnDeeds now
  | sweepParts parts => exact truthful_sweepPartsDeeds w sharing s.stack k parts 0 parts
  | registerLists lists => exact truthful_of_found? (found?_registerListsDeeds k lists)
  | contend camera writers each clears =>
    exact truthful_of_found? (found?_contendDeeds k s.stack camera writers each clears)
  | sweepOnce => exact s.truthful_serveDeeds fun v => v.truthful_sweepOnceDeeds Outlet.finish w
  | start => exact s.truthful_serveDeeds fun v => ⟨trivial, trivial⟩
  | stop => exact s.truthful_serveDeeds fun v => ⟨trivial, trivial⟩
  | release => exact s.truthful_serveDeeds fun v => ⟨trivial, trivial⟩
  | background expected => exact s.truthful_serveDeeds (truthful_backgroundDeeds w sharing expected)
  | hold | held | view | holdView | heldView | countFor | policy | isRunning | workers | receive |
    drain | drainCount | close => trivial

theorem truthful_quietDeeds (s : Session) : s.stack.Truthful s.quietDeeds := by
  unfold quietDeeds
  cases s.source with
  | dial => exact ⟨trivial, trivial⟩
  | machine dial => exact ⟨trivial, trivial, trivial⟩

/-- Whatever sweeps take away in a session, by themselves or for a finisher, was stored and was due. -/
theorem truthful_deeds (s : Session) (moves : List Move) : s.stack.Truthful (s.deeds moves) := by
  refine truthful_loopDeeds _ _ (·.stack) (fun _ => True) proceed_eq_after (fun _ _ h => h)
    (fun s m _ => ?_) s trivial moves
  refine truthful_append.2 ⟨s.truthful_quietDeeds, ?_⟩
  rw [← quiet_eq_after]
  exact s.quiet.truthful_runDeeds m.walk m.sharing _ m.command

end Session

end LiveTracks
