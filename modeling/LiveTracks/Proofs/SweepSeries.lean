import LiveTracks.Proofs.Shares

/-!
# Series of sweeps

Sweeps of any layers at any readings of the clock, one after the other with nothing else in between. Nobody has
to follow the states in the middle: a series drops a track from number `j` downwards if one of its sweeps is of
layer `j` or a layer above it and the row there had passed a limit from the start (`goneAfter`), and it reports
each stored track with the first verdict on it (`passes_of_unarmed`). So what two series leave and report is the
same as soon as the same keys are gone at every number (`passes_agree`). It makes no difference how often a
layer is swept before the last time (`schedule_unseen`), nor in which order the layers are swept
(`layers_in_any_order`).
-/

namespace LiveTracks

variable {P : Type}

/-! ### Verdicts as time goes on -/

theorem Policy.evaluate_eq_inactive_of_le {p : Policy} {life : Lifetime} {now later : Instant}
    (h : now.nanos ≤ later.nanos) (he : p.evaluate life now = some .inactive) :
    p.evaluate life later = some .inactive := by
  rw [evaluate_eq_inactive_iff] at *
  omega

/-- What is too old may later be inactive as well; what is inactive stays so. -/
theorem Policy.reason_of_le {p : Policy} {life : Lifetime} {now later : Instant} {r r' : Reason}
    (h : now.nanos ≤ later.nanos) (he : p.evaluate life now = some r) (he' : p.evaluate life later = some r') :
    r = r' ∨ r = .maxAge ∧ r' = .inactive := by
  cases r with
  | inactive =>
    rw [evaluate_eq_inactive_of_le h he] at he'
    exact .inl (Option.some.inj he')
  | maxAge =>
    cases r' with
    | inactive => exact .inr ⟨rfl, rfl⟩
    | maxAge => exact .inl rfl

/-- A sweep of layer `number` at the time that the clock shows then. -/
structure Pass where
  number : Nat
  time : Instant
  walk : Walk

/-! ### Dropping by number -/

theorem Layer.without_eq_self {l : Layer} {gone : Key → Bool} (h : ∀ key, gone key = false) : l.without gone = l := by
  have hrows : l.rows.without gone = l.rows := by
    apply Store.without_eq_self
    intro key hkey
    rw [h key] at hkey
    cases hkey
  rw [Layer.without, hrows]

namespace Stack

/-- The stack without the tracks that `gone` picks for each of its numbers. -/
def withoutAt (s : Stack P) (gone : Nat → Key → Bool) : Stack P :=
  { s with
    base := s.base.without (gone 0)
    layers := s.layers.mapIdx fun i l => l.without (gone (i + 1)) }

theorem without_eq_withoutAt (s : Stack P) (k : Nat) (gone : Key → Bool) :
    s.without k gone = s.withoutAt fun j key => decide (j ≤ k) && gone key := by
  have hlayers : changeBelow k (·.without gone) s.layers =
      s.layers.mapIdx fun i l => l.without fun key => decide (i + 1 ≤ k) && gone key := by
    apply List.ext_getElem?
    intro i
    rw [getElem?_changeBelow, List.getElem?_mapIdx]
    by_cases hi : i < k
    · have hik : decide (i + 1 ≤ k) = true := decide_eq_true hi
      simp only [if_pos hi, hik, Bool.true_and]
    · have hik : decide (i + 1 ≤ k) = false := decide_eq_false hi
      cases s.layers[i]? with
      | none => simp only [if_neg hi, Option.map_none]
      | some l =>
        rw [if_neg hi, Option.map_some, Layer.without_eq_self]
        intro key
        rw [hik, Bool.false_and]
  simp only [without, withoutAt, hlayers, Nat.zero_le, decide_true, Bool.true_and]

theorem withoutAt_withoutAt (s : Stack P) (p q : Nat → Key → Bool) :
    (s.withoutAt p).withoutAt q = s.withoutAt fun j key => p j key || q j key := by
  simp only [withoutAt, Store.without_without, List.mapIdx_mapIdx, Layer.without, Function.comp_def]

theorem withoutAt_none (s : Stack P) : s.withoutAt (fun _ _ => false) = s := by
  have h := s.without_eq_withoutAt 0 fun _ => false
  simp only [Bool.and_false] at h
  rw [← h, without_eq_self] <;> simp

theorem layer?_withoutAt (s : Stack P) (gone : Nat → Key → Bool) (j : Nat) :
    (s.withoutAt gone).layer? j = (s.layer? j).map (·.without (gone j)) := by
  cases j with
  | zero => rfl
  | succ j => exact List.getElem?_mapIdx

theorem verdict?_withoutAt (s : Stack P) (gone : Nat → Key → Bool) (k : Nat) (key : Key) :
    (s.withoutAt gone).verdict? k key = if gone k key then none else s.verdict? k key := by
  unfold verdict?
  rw [layer?_withoutAt]
  cases s.layer? k with
  | none => simp
  | some l =>
    simp only [Option.map_some, Option.bind_some, Layer.policy_without, Layer.rows_without,
      Store.find?_without]
    cases gone k key <;> rfl

theorem named_withoutAt {s : Stack P} (hn : ∀ l ∈ s.layers, Named l.rows) (gone : Nat → Key → Bool) :
    ∀ l ∈ (s.withoutAt gone).layers, Named l.rows := by
  intro l hl
  obtain ⟨i, hi, rfl⟩ := List.mem_mapIdx.1 hl
  exact named_without (hn _ (List.getElem_mem hi)) _

/-! ### Series -/

def showing (s : Stack P) (now : Instant) : Stack P := { s with clock := now }

def pass (s : Stack P) (p : Pass) : Stack P × List (Expired P) := (s.showing p.time).sweep p.number p.walk

/-- One sweep after the other: what is left, and what each of them found. -/
def passes (s : Stack P) : List Pass → Stack P × List (List (Expired P))
  | [] => (s, [])
  | p :: series =>
    let (s, found) := s.pass p
    let (s, founds) := passes s series
    (s, found :: founds)

/-- What a sweep would say of the row of a key if it were the first one. -/
def verdictOf? (s : Stack P) (p : Pass) (key : Key) : Option Reason := (s.showing p.time).verdict? p.number key

def goneAfter (s : Stack P) (series : List Pass) (j : Nat) (key : Key) : Bool :=
  series.any fun p => decide (j ≤ p.number) && (s.verdictOf? p key).isSome

def clockAfter (s : Stack P) (series : List Pass) : Instant := (series.getLast?.map (·.time)).getD s.clock

/-- What the sweeps of a series have found: each stored track once, at the first verdict on it. -/
structure FoundBy (s : Stack P) (series : List Pass) (founds : List (List (Expired P))) : Prop where
  once : (founds.flatten.map (·.entry.key)).Nodup
  found_iff : ∀ x, x ∈ founds.flatten ↔ s.base.find? x.entry.key = some x.entry ∧
    series.findSome? (s.verdictOf? · x.entry.key) = some x.reason
  verdict : List.Forall₂ (fun p found => ∀ x ∈ found, s.verdictOf? p x.entry.key = some x.reason) series founds

/-! ### One sweep and the sweeps after it -/

theorem goneAfter_singleton (s : Stack P) (p : Pass) :
    s.goneAfter [p] = fun j key => decide (j ≤ p.number) && (s.verdictOf? p key).isSome :=
  funext fun _ => funext fun _ => Bool.or_false _

/-- The stack after the first sweep of a series. -/
def afterPass (s : Stack P) (p : Pass) (events : List Event) : Stack P :=
  ((s.showing p.time).withoutAt (s.goneAfter [p])).logs events

theorem verdictOf?_afterPass (s : Stack P) (p q : Pass) (events : List Event) (key : Key) :
    (s.afterPass p events).verdictOf? q key =
      if q.number ≤ p.number ∧ (s.verdictOf? p key).isSome then none else s.verdictOf? q key := by
  have hshow : (s.afterPass p events).showing q.time =
      ((s.showing q.time).withoutAt (s.goneAfter [p])).logs events := rfl
  rw [verdictOf?, hshow, verdict?_logs, verdict?_withoutAt, goneAfter_singleton]
  simp only [Bool.and_eq_true, decide_eq_true_eq]
  rfl

theorem find?_afterPass (s : Stack P) (p : Pass) (events : List Event) (key : Key) :
    (s.afterPass p events).base.find? key =
      if (s.verdictOf? p key).isSome then none else s.base.find? key := by
  have hbase : (s.afterPass p events).base = s.base.without (s.goneAfter [p] 0) := rfl
  rw [hbase, Store.find?_without, goneAfter_singleton]
  simp

/-- Where a later sweep finds no row any more, the track was dropped from a higher number downwards. -/
theorem goneAfter_cons (s : Stack P) (p : Pass) (series : List Pass) (events : List Event) :
    (fun j key => s.goneAfter [p] j key || (s.afterPass p events).goneAfter series j key) =
      s.goneAfter (p :: series) := by
  funext j key
  rw [goneAfter_singleton, Bool.eq_iff_iff]
  simp only [goneAfter, List.any_cons, Bool.or_eq_true, List.any_eq_true, Bool.and_eq_true, decide_eq_true_eq,
    verdictOf?_afterPass]
  refine or_congr_right' fun hp => exists_congr fun q => and_congr_right fun _ => and_congr_right fun hj => ?_
  rw [if_neg fun hq => hp ⟨Nat.le_trans hj hq.1, hq.2⟩]

theorem pass_of_unarmed {s : Stack P} (ha : s.armed = none) (hn : ∀ l ∈ s.layers, Named l.rows) (p : Pass) :
    ∃ found : List (Expired P),
      s.pass p = (s.afterPass p (found.map Expired.event), found) ∧ (found.map (·.entry.key)).Nodup ∧
      ∀ x, x ∈ found ↔ s.base.find? x.entry.key = some x.entry ∧ s.verdictOf? p x.entry.key = some x.reason := by
  obtain ⟨found, hs, honce, hfound⟩ := sweep_of_unarmed (s := s.showing p.time) ha hn p.number p.walk
  refine ⟨found, ?_, honce, fun x => ?_⟩
  · rw [pass, hs, left, without_eq_withoutAt, afterPass, goneAfter_singleton]
    simp only [Bool.true_and]
    rfl
  · rw [hfound, expired?_eq_some_iff, and_iff_right rfl]
    rfl

theorem FoundBy.nil (s : Stack P) : FoundBy s [] [] where
  once := List.nodup_nil
  found_iff x := by simp
  verdict := .nil

theorem FoundBy.cons {s : Stack P} {p : Pass} {series : List Pass} {events : List Event}
    {found : List (Expired P)} {founds : List (List (Expired P))} (honce : (found.map (·.entry.key)).Nodup)
    (hfound : ∀ x, x ∈ found ↔
      s.base.find? x.entry.key = some x.entry ∧ s.verdictOf? p x.entry.key = some x.reason)
    (h : FoundBy (s.afterPass p events) series founds) : FoundBy s (p :: series) (found :: founds) := by
  -- what the first sweep has dropped is not there for the others, and all else is as it was
  have hrest : ∀ x, x ∈ founds.flatten ↔ s.verdictOf? p x.entry.key = none ∧
      s.base.find? x.entry.key = some x.entry ∧
      series.findSome? (s.verdictOf? · x.entry.key) = some x.reason := by
    intro x
    rw [h.found_iff, find?_afterPass]
    simp only [verdictOf?_afterPass]
    cases s.verdictOf? p x.entry.key <;> simp
  refine ⟨?_, fun x => ?_, .cons (fun x hx => ((hfound x).1 hx).2) ?_⟩
  · rw [List.flatten_cons, List.map_append, List.nodup_append]
    refine ⟨honce, h.once, fun key hkey key' hkey' heq => ?_⟩
    obtain ⟨x, hx, rfl⟩ := List.mem_map.1 hkey
    obtain ⟨y, hy, rfl⟩ := List.mem_map.1 hkey'
    have hverdict := ((hfound x).1 hx).2
    rw [heq, ((hrest y).1 hy).1] at hverdict
    cases hverdict
  · rw [List.flatten_cons, List.mem_append, hfound, hrest, List.findSome?_cons]
    cases s.verdictOf? p x.entry.key <;> simp
  · refine h.verdict.imp fun q found' hq x hx => ?_
    have hverdict := hq x hx
    rw [verdictOf?_afterPass] at hverdict
    split at hverdict
    · cases hverdict
    · exact hverdict

theorem clockAfter_afterPass (s : Stack P) (p : Pass) (series : List Pass) (events : List Event) :
    (s.afterPass p events).clockAfter series = s.clockAfter (p :: series) := by
  cases series with
  | nil => rfl
  | cons q series =>
    rw [clockAfter, clockAfter, List.getLast?_cons_cons, List.getLast?_eq_some_getLast (List.cons_ne_nil q series)]
    rfl

theorem passes_of_unarmed {s : Stack P} (ha : s.armed = none) (hn : ∀ l ∈ s.layers, Named l.rows)
    (series : List Pass) :
    ∃ founds : List (List (Expired P)),
      s.passes series = (((s.showing (s.clockAfter series)).withoutAt (s.goneAfter series)).logs
        (founds.flatten.map Expired.event), founds) ∧ FoundBy s series founds := by
  induction series generalizing s with
  | nil =>
    have hsame : (s.showing (s.clockAfter [])).withoutAt (s.goneAfter []) = s := withoutAt_none s
    exact ⟨[], by rw [hsame]; exact Prod.ext (s.logs_nil).symm rfl, .nil s⟩
  | cons p series ih =>
    obtain ⟨found, hpass, honce, hfound⟩ := pass_of_unarmed ha hn p
    obtain ⟨founds, hrest, hfounds⟩ := ih (s := s.afterPass p (found.map Expired.event)) ha (named_withoutAt hn _)
    refine ⟨found :: founds, ?_, .cons honce hfound hfounds⟩
    have hleft : ∀ now gone, ((s.afterPass p (found.map Expired.event)).showing now).withoutAt gone =
        (((s.showing now).withoutAt (s.goneAfter [p])).withoutAt gone).logs (found.map Expired.event) :=
      fun now gone => rfl
    simp only [passes, hpass, hrest, hleft, withoutAt_withoutAt, goneAfter_cons, clockAfter_afterPass, logs_logs,
      List.flatten_cons, List.map_append]

/-! ### What does not depend on the series -/

theorem FoundBy.mem_entries {s : Stack P} {series : List Pass} {founds : List (List (Expired P))}
    (h : FoundBy s series founds) {e : Entry P} :
    e ∈ founds.flatten.map (·.entry) ↔ s.base.find? e.key = some e ∧ s.goneAfter series 0 e.key = true := by
  have hgone : s.goneAfter series 0 e.key = (series.findSome? (s.verdictOf? · e.key)).isSome := by
    rw [List.isSome_findSome?, goneAfter]
    simp
  rw [hgone, Option.isSome_iff_exists, List.mem_map]
  constructor
  · rintro ⟨x, hx, rfl⟩
    obtain ⟨hstored, hreason⟩ := (h.found_iff x).1 hx
    exact ⟨hstored, x.reason, hreason⟩
  · rintro ⟨hstored, reason, hreason⟩
    exact ⟨⟨e, reason⟩, (h.found_iff _).2 ⟨hstored, hreason⟩, rfl⟩

theorem FoundBy.nodup_entries {s : Stack P} {series : List Pass} {founds : List (List (Expired P))}
    (h : FoundBy s series founds) : (founds.flatten.map (·.entry)).Nodup := by
  refine List.Nodup.of_map Entry.key ?_
  rw [List.map_map]
  exact h.once

/-- Two series that drop the same keys at every number, and that end at the same time, leave the same and report
the same entries. -/
theorem passes_agree {s : Stack P} (ha : s.armed = none) (hn : ∀ l ∈ s.layers, Named l.rows)
    {series series' : List Pass} (hclock : s.clockAfter series = s.clockAfter series')
    (hgone : s.goneAfter series = s.goneAfter series') :
    { (s.passes series).1 with log := (s.passes series').1.log } = (s.passes series').1 ∧
      ((s.passes series).2.flatten.map (·.entry)).Perm ((s.passes series').2.flatten.map (·.entry)) := by
  obtain ⟨founds, hs, hfounds⟩ := passes_of_unarmed ha hn series
  obtain ⟨founds', hs', hfounds'⟩ := passes_of_unarmed ha hn series'
  rw [hs, hs', hclock, hgone]
  refine ⟨rfl, (List.perm_ext_iff_of_nodup hfounds.nodup_entries hfounds'.nodup_entries).2 fun e => ?_⟩
  rw [hfounds.mem_entries, hfounds'.mem_entries, hgone]

/-! ### One layer, again and again -/

theorem verdictOf?_of_le {s : Stack P} {k : Nat} {now later : Instant} {w : Walk} (w' : Walk) {key : Key}
    {r : Reason} (h : now.nanos ≤ later.nanos) (hr : s.verdictOf? ⟨k, now, w⟩ key = some r) :
    ∃ r', s.verdictOf? ⟨k, later, w'⟩ key = some r' ∧ (r = r' ∨ r = .maxAge ∧ r' = .inactive) := by
  obtain ⟨l, hl, hr⟩ := Option.bind_eq_some_iff.1 hr
  obtain ⟨row, hrow, hr⟩ := Option.bind_eq_some_iff.1 hr
  have hlater : l.policy.evaluate row.payload later ≠ none :=
    Policy.evaluate_ne_none_of_le h (ne_of_eq_of_ne hr nofun)
  obtain ⟨r', hr'⟩ := Option.ne_none_iff_exists'.1 hlater
  exact ⟨r', Option.bind_eq_some_iff.2 ⟨l, hl, Option.bind_eq_some_iff.2 ⟨row, hrow, hr'⟩⟩,
    Policy.reason_of_le h hr hr'⟩

section Again

variable {s : Stack P} {k : Nat} {series : List Pass} {last : Instant}

theorem goneAfter_of_last (hseries : ∀ p ∈ series, p.number = k ∧ p.time.nanos ≤ last.nanos) {w : Walk}
    (hlast : ⟨k, last, w⟩ ∈ series) (w' : Walk) : s.goneAfter series = s.goneAfter [⟨k, last, w'⟩] := by
  funext j key
  rw [goneAfter_singleton, Bool.eq_iff_iff]
  simp only [goneAfter, List.any_eq_true, Bool.and_eq_true, decide_eq_true_eq]
  constructor
  · rintro ⟨⟨number, time, walk⟩, hp, hj, hdue⟩
    obtain ⟨rfl, htime⟩ := hseries _ hp
    obtain ⟨r, hr⟩ := Option.isSome_iff_exists.1 hdue
    obtain ⟨r', hr', -⟩ := verdictOf?_of_le w' htime hr
    exact ⟨hj, Option.isSome_iff_exists.2 ⟨r', hr'⟩⟩
  · exact fun h => ⟨_, hlast, h⟩

theorem FoundBy.reason {founds : List (List (Expired P))} (h : FoundBy s series founds)
    (hseries : ∀ p ∈ series, p.number = k ∧ p.time.nanos ≤ last.nanos) {x : Expired P} (hx : x ∈ founds.flatten)
    {w : Walk} {r : Reason} (hr : s.verdictOf? ⟨k, last, w⟩ x.entry.key = some r) :
    x.reason = r ∨ x.reason = .maxAge ∧ r = .inactive := by
  obtain ⟨⟨number, time, walk⟩, hp, hreason⟩ := List.exists_of_findSome?_eq_some ((h.found_iff x).1 hx).2
  obtain ⟨rfl, htime⟩ := hseries _ hp
  obtain ⟨r', hr', hcase⟩ := verdictOf?_of_le w htime hreason
  rw [hr] at hr'
  cases hr'
  exact hcase

end Again

/-- What the last sweep of a series has found, it found with its own verdicts. -/
theorem FoundBy.verdict_last {s : Stack P} {series : List Pass} {p : Pass} {founds : List (List (Expired P))}
    (h : FoundBy s (series ++ [p]) founds) {found : List (Expired P)} (hfound : founds.getLast? = some found) :
    ∀ x ∈ found, x ∈ founds.flatten ∧ s.verdictOf? p x.entry.key = some x.reason := by
  obtain ⟨first, rfl⟩ := List.getLast?_eq_some_iff.1 hfound
  have hlength : first.length = series.length := by
    have := h.verdict.length_eq
    simp only [List.length_append, List.length_singleton] at this
    omega
  have hdrop := List.forall₂_drop_append _ first [found] h.verdict
  rw [hlength, List.drop_left] at hdrop
  obtain ⟨hp, -⟩ := List.forall₂_cons.1 hdrop
  exact fun x hx => ⟨List.mem_flatten.2 ⟨found, List.mem_append_right first List.mem_cons_self, hx⟩, hp x hx⟩

/-- At which times a layer is swept before the last time, and in which order each of these sweeps visits, makes no
difference to what is dropped and reported. Only the reason may: what was too old when it was reported may be
inactive by the last time. -/
theorem schedule_unseen {s : Stack P} (ha : s.armed = none) (hn : ∀ l ∈ s.layers, Named l.rows) (k : Nat)
    {earlier : List (Instant × Walk)} {last : Instant × Walk}
    (hsorted : (earlier ++ [last]).Pairwise fun a b => a.1.nanos ≤ b.1.nanos) (w : Walk) :
    let often := s.passes ((earlier ++ [last]).map fun t => ⟨k, t.1, t.2⟩)
    let late := (s.showing last.1).sweep k w
    { often.1 with log := late.1.log } = late.1 ∧
      (often.2.flatten.map (·.entry)).Perm (late.2.map (·.entry)) ∧
      (often.2.flatten.map (·.entry.key)).Nodup ∧
      (∀ x ∈ often.2.flatten, ∀ y ∈ late.2, x.entry.key = y.entry.key →
        x.reason = y.reason ∨ x.reason = .maxAge ∧ y.reason = .inactive) ∧
      ∀ found, often.2.getLast? = some found → ∀ x ∈ found, x ∈ late.2 := by
  intro often late
  let pass (t : Instant × Walk) : Pass := ⟨k, t.1, t.2⟩
  have htimes : ∀ p ∈ (earlier ++ [last]).map pass, p.number = k ∧ p.time.nanos ≤ last.1.nanos := by
    intro p hp
    obtain ⟨t, ht, rfl⟩ := List.mem_map.1 hp
    refine ⟨rfl, ?_⟩
    rcases List.mem_append.1 ht with ht | ht
    · exact (List.pairwise_append.1 hsorted).2.2 t ht last List.mem_cons_self
    · have heq := List.mem_singleton.1 ht
      exact Nat.le_of_eq (congrArg (fun t : Instant × Walk => t.1.nanos) heq)
  have hlast : pass last ∈ (earlier ++ [last]).map pass :=
    List.mem_map.2 ⟨last, List.mem_append_right earlier List.mem_cons_self, rfl⟩
  have hclock : s.clockAfter ((earlier ++ [last]).map pass) = s.clockAfter [⟨k, last.1, w⟩] := by
    simp [clockAfter, pass]
  obtain ⟨hstack, hentries⟩ := passes_agree ha hn hclock (goneAfter_of_last htimes hlast w)
  obtain ⟨founds, hoften, hfounds⟩ := passes_of_unarmed ha hn ((earlier ++ [last]).map pass)
  have hoften' : often.2 = founds := congrArg Prod.snd hoften
  obtain ⟨found, hpass, -, hfound⟩ := pass_of_unarmed ha hn ⟨k, last.1, w⟩
  have hlate : late.2 = found := congrArg Prod.snd hpass
  have hsingle : (s.passes [⟨k, last.1, w⟩]).2.flatten = late.2 := List.append_nil _
  rw [hsingle] at hentries
  refine ⟨hstack, hentries, ?_, fun x hx y hy hkey => ?_, fun found' hf x hx => ?_⟩
  · rw [hoften']
    exact hfounds.once
  · rw [hoften'] at hx
    rw [hlate] at hy
    exact hfounds.reason htimes hx (hkey ▸ ((hfound y).1 hy).2)
  · rw [hoften'] at hf
    rw [List.map_append, List.map_singleton] at hfounds
    obtain ⟨hmem, hverdict⟩ := hfounds.verdict_last hf x hx
    rw [hlate]
    exact (hfound x).2 ⟨((hfounds.found_iff x).1 hmem).1, hverdict⟩

/-- A track that was reported now and again until 5 s and another one that was reported at 8 s. -/
def agingRun : List (Step String) :=
  [.plain 1 (.register ⟨"north", 1, "a"⟩), .plain 1 (.setClock (.mk 5000000000)),
    .plain 1 (.register ⟨"north", 1, "b"⟩), .plain 1 (.setClock (.mk 8000000000)),
    .plain 1 (.register ⟨"south", 2, "c"⟩)]

def aging : Stack String := (ofPolicies [⟨.ofSeconds 30, .ofSeconds 9⟩]).run agingRun

/-- Swept at 10 s the first track is too old; at 40 s it is inactive, and so is the other one. -/
theorem schedule_unseen_aging :
    let often := aging.passes ([(.mk 10000000000, .ascending), (.mk 40000000000, .ascending)].map fun t => ⟨1, t.1, t.2⟩)
    let late := (aging.showing (.mk 40000000000)).sweep 1 .ascending
    often.2.map (·.map fun x => (x.entry.payload, x.reason)) = [[("b", .maxAge)], [("c", .inactive)]] ∧
      late.2.map (fun x => (x.entry.payload, x.reason)) = [("b", .inactive), ("c", .inactive)] ∧
      { often.1 with log := late.1.log } = late.1 := by
  have hr : aging.Reachable := ⟨_, _, rfl⟩
  have hsorted : ([(.mk 10000000000, .ascending)] ++ [(.mk 40000000000, .ascending)] :
      List (Instant × Walk)).Pairwise fun a b => a.1.nanos ≤ b.1.nanos := by simp
  exact ⟨by decide +kernel, by decide +kernel,
    (schedule_unseen rfl (named_of_reachable hr) 1 hsorted .ascending).1⟩

/-! ### Every layer once -/

theorem mem_range'_of_verdict? {s : Stack P} {j : Nat} {key : Key} (h : (s.verdict? j key).isSome = true) :
    j ∈ List.range' 1 s.depth := by
  obtain ⟨l, row, hl, -⟩ := isSome_row?_of_verdict? h
  cases j with
  | zero => cases hl
  | succ j =>
    have hlt : j < s.layers.length := (List.getElem?_eq_some_iff.1 hl).1
    exact List.mem_range'_1.2 ⟨Nat.le_add_left 1 j, by rw [depth]; omega⟩

theorem goneAfter_layers (s : Stack P) {order : List Nat} (ho : order.Perm (List.range' 1 s.depth))
    (walks : Nat → Walk) (i : Nat) (key : Key) :
    s.goneAfter (order.map fun j => ⟨j, s.clock, walks j⟩) i key = true ↔
      ∃ j, i ≤ j ∧ (s.verdict? j key).isSome = true := by
  simp only [goneAfter, List.any_map, List.any_eq_true, Function.comp_apply, Bool.and_eq_true, decide_eq_true_eq]
  constructor
  · rintro ⟨j, -, hj, hdue⟩
    exact ⟨j, hj, hdue⟩
  · rintro ⟨j, hj, hdue⟩
    exact ⟨j, ho.mem_iff.2 (mem_range'_of_verdict? hdue), hj, hdue⟩

theorem clockAfter_layers (s : Stack P) (order : List Nat) (walks : Nat → Walk) :
    s.clockAfter (order.map fun j => ⟨j, s.clock, walks j⟩) = s.clock := by
  rw [clockAfter, List.getLast?_map]
  cases order.getLast? <;> rfl

/-- If every layer is swept once, all at one reading of the clock, then just the tracks are left that no layer has
a verdict on, and just the others have been reported, each by one sweep; and it makes no difference which layer
comes first. -/
theorem layers_in_any_order {s : Stack P} (ha : s.armed = none) (hn : ∀ l ∈ s.layers, Named l.rows)
    {order order' : List Nat} (ho : order.Perm (List.range' 1 s.depth)) (ho' : order'.Perm (List.range' 1 s.depth))
    (walks walks' : Nat → Walk) :
    let one := s.passes (order.map fun j => ⟨j, s.clock, walks j⟩)
    let other := s.passes (order'.map fun j => ⟨j, s.clock, walks' j⟩)
    (∀ e, one.1.base.find? e.key = some e ↔ s.base.find? e.key = some e ∧ ∀ j, s.verdict? j e.key = none) ∧
      { one.1 with log := other.1.log } = other.1 ∧
      (∀ e, e ∈ one.2.flatten.map (·.entry) ↔
        s.base.find? e.key = some e ∧ ∃ j, (s.verdict? j e.key).isSome = true) ∧
      (one.2.flatten.map (·.entry.key)).Nodup ∧
      (one.2.flatten.map (·.entry)).Perm (other.2.flatten.map (·.entry)) := by
  intro one other
  have hgone := s.goneAfter_layers ho walks
  have hgone0 : ∀ key, s.goneAfter (order.map fun j => ⟨j, s.clock, walks j⟩) 0 key = true ↔
      ∃ j, (s.verdict? j key).isSome = true := by
    intro key
    rw [hgone]
    exact exists_congr fun j => and_iff_right (Nat.zero_le j)
  have hsame : s.goneAfter (order.map fun j => ⟨j, s.clock, walks j⟩) =
      s.goneAfter (order'.map fun j => ⟨j, s.clock, walks' j⟩) := by
    funext i key
    rw [Bool.eq_iff_iff, hgone, s.goneAfter_layers ho' walks']
  have hclock := (s.clockAfter_layers order walks).trans (s.clockAfter_layers order' walks').symm
  obtain ⟨hstack, hentries⟩ := passes_agree ha hn hclock hsame
  obtain ⟨founds, hone, hfounds⟩ := passes_of_unarmed ha hn (order.map fun j => ⟨j, s.clock, walks j⟩)
  have hfounds' : one.2 = founds := congrArg Prod.snd hone
  have hbase : one.1.base = s.base.without (s.goneAfter (order.map fun j => ⟨j, s.clock, walks j⟩) 0) :=
    congrArg (·.1.base) hone
  refine ⟨fun e => ?_, hstack, fun e => ?_, ?_, hentries⟩
  · have hkept : (∀ j, s.verdict? j e.key = none) ↔ ¬ ∃ j, (s.verdict? j e.key).isSome = true := by simp
    rw [hbase, Store.find?_without, hkept, ← hgone0]
    split <;> simp_all
  · rw [hfounds', hfounds.mem_entries, hgone0]
  · rw [hfounds']
    exact hfounds.once

/-- The first track is due in both layers, the second one in the lower layer only. -/
theorem layers_in_any_order_uneven :
    let series (order : List Nat) := uneven.passes (order.map fun j => ⟨j, uneven.clock, .ascending⟩)
    (series [1, 2]).2.map (·.map (·.entry.payload)) = [["a", "b"], []] ∧
      (series [2, 1]).2.map (·.map (·.entry.payload)) = [["a"], ["b"]] ∧
      { (series [1, 2]).1 with log := (series [2, 1]).1.log } = (series [2, 1]).1 := by
  have hr : uneven.Reachable := ⟨_, _, rfl⟩
  have hup : [1, 2].Perm (List.range' 1 uneven.depth) := by decide +kernel
  have hdown : [2, 1].Perm (List.range' 1 uneven.depth) := by decide +kernel
  have h := layers_in_any_order rfl (named_of_reachable hr) hup hdown (fun _ => .ascending) fun _ => .ascending
  exact ⟨by decide +kernel, by decide +kernel, h.2.1⟩

end Stack

end LiveTracks
