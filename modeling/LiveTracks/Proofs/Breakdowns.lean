import LiveTracks.Proofs.Background

/-!
# Workers that break down

A worker drops all that has expired of its share before it hands over the first track of it. If the finisher panics
in a call, then the worker is lost, and what it still had in hand is left behind (`Breakdown`): it is neither stored
nor handed over. Nothing else is lost, whatever the turns of the workers were and however the finisher is disposed
(`lost_only_behind`).
-/

namespace LiveTracks

variable {σ P : Type}

/-- A call in which the finisher panicked, and what its worker was still to hand over. -/
structure Breakdown (P : Type) where
  worker : Nat
  call : Expired P
  behind : List (Expired P)

/-- No call reports the track of the key. -/
def Finisher.LeavesOut (f : Finisher σ P) (key : Key) : Prop :=
  ∀ state x, ∀ r ∈ (f state x).2.reports, r.names key = false

/-! ### One call -/

namespace Stack

variable {s : Stack P} {k : Nat} {reports : List (Report P)} {log : List Event} {key : Key}

theorem handOver_singleton (f : Finisher σ P) (state : σ) (s : Stack P) (x : Expired P) :
    ∃ log, s.handOver f state [x] =
      ((f state x).1, s.filled s.depth (fun _ => (f state x).2.reports) log,
        decide ((f state x).2.outcome ≠ .panicked)) := by
  obtain ⟨log, habsorbed⟩ := s.absorb_eq_filled (f state x).2
  cases ho : (f state x).2.outcome with
  | accepted => exact ⟨log, by simp only [handOver, ho, habsorbed]; rfl⟩
  | refused text =>
    exact ⟨log ++ [.handoverFailed x.entry.key text], by simp only [handOver, ho, habsorbed]; rfl⟩
  | panicked => exact ⟨log, by simp only [handOver, ho, habsorbed]; rfl⟩

theorem isSome_find?_filled (h : (s.base.find? key).isSome = true) :
    ((s.filled k (fun _ => reports) log).base.find? key).isSome = true := by
  rw [find?_filled]
  cases (reports.filter (·.names key)).getLast? with
  | none => exact h
  | some r => rfl

/-- What a sweep of a share does not find stays as it is. -/
structure Spares (s : Stack P) (k : Nat) (s' : Stack P) (found : List (Expired P)) : Prop where
  unarmed : s'.armed = none
  named : ∀ l ∈ s'.layers, Named l.rows
  depth : s'.depth = s.depth
  stored : ∀ key, (s.base.find? key).isSome = true →
    (s'.base.find? key).isSome = true ∨ ∃ x ∈ found, x.entry.key = key
  expired : ∀ x, s.expired? k x.entry.key = some x → s'.expired? k x.entry.key = some x ∨ x ∈ found

theorem spares_sweepPart (ha : s.armed = none) (hn : ∀ l ∈ s.layers, Named l.rows) {w : Walk} {sharing : Sharing}
    {p n : Nat} {s' : Stack P} {found : List (Expired P)} (hsweep : s.sweepPart k w sharing p n = (s', found)) :
    Spares s k s' found := by
  obtain ⟨found', hleft, -, hfound⟩ := sweepPart_of_unarmed ha hn k w sharing p n
  rw [hsweep] at hleft
  obtain ⟨rfl, rfl⟩ := Prod.mk.inj hleft
  refine
    { unarmed := by rw [armed_logs, armed_left]; exact ha
      named := named_left hn k _ _
      depth := by rw [depth, layers_logs]; exact depth_left fun c => sharing.part (max n 1) c == p
      stored := fun key hkey => ?stored
      expired := fun x hx => ?expired }
  case stored =>
    obtain ⟨entry, hentry⟩ := Option.isSome_iff_exists.1 hkey
    obtain rfl : entry.key = key := Store.key_of_find? hentry
    cases hgone : sharing.part (max n 1) entry.key.camera == p && (s.verdict? k entry.key).isSome with
    | true =>
      obtain ⟨hmine, hverdict⟩ := Bool.and_eq_true_iff.1 hgone
      obtain ⟨reason, hreason⟩ := Option.isSome_iff_exists.1 hverdict
      exact .inr ⟨⟨entry, reason⟩, (hfound _).2 ⟨hmine, expired?_eq_some_iff.2 ⟨rfl, hentry, hreason⟩⟩, rfl⟩
    | false =>
      left
      rw [base_logs, left, base_without, Store.find?_without, hgone]
      exact hkey
  case expired =>
    cases hmine : sharing.part (max n 1) x.entry.key.camera == p with
    | true => exact .inr ((hfound x).2 ⟨hmine, hx⟩)
    | false =>
      left
      rw [expired?_logs, expired?_left, hmine]
      exact hx

end Stack

namespace Underway

/-- The breakdown of the next turn of sweeper `i`, if its call panics. -/
def breakdown? (f : Finisher σ P) (u : Underway σ P) (i : Nat) : Option (Breakdown P) :=
  match u.sweepers[i]? with
  | some ⟨_, _, x :: rest, false⟩ => if (f u.finisher x).2.outcome = .panicked then some ⟨i, x, rest⟩ else none
  | _ => none

def breakdowns (f : Finisher σ P) (sharing : Sharing) : Underway σ P → List (Nat × Walk) → List (Breakdown P)
  | _, [] => []
  | u, t :: turns => (u.breakdown? f t.1).toList ++ breakdowns f sharing (u.turn f sharing t.1 t.2) turns

section Breakdown

variable (f : Finisher σ P) {u : Underway σ P} {i : Nat} {sweeper : Sweeper P}

theorem breakdown?_of_idle (h : ∀ sweeper, u.sweepers[i]? = some sweeper → sweeper.lost = true) :
    u.breakdown? f i = none := by
  unfold breakdown?
  split
  · rename_i part parts x rest hi
    cases h _ hi
  · rfl

theorem breakdown?_of_empty (h : u.sweepers[i]? = some sweeper) (hbatch : sweeper.batch = []) :
    u.breakdown? f i = none := by
  obtain ⟨part, parts, batch, lost⟩ := sweeper
  cases hbatch
  simp only [breakdown?, h]

theorem breakdown?_of_batch (h : u.sweepers[i]? = some sweeper) (hlost : sweeper.lost = false) {x : Expired P}
    {rest : List (Expired P)} (hbatch : sweeper.batch = x :: rest) :
    u.breakdown? f i = if (f u.finisher x).2.outcome = .panicked then some ⟨i, x, rest⟩ else none := by
  obtain ⟨part, parts, batch, lost⟩ := sweeper
  cases hbatch
  cases hlost
  simp only [breakdown?, h]

end Breakdown

/-! ### What is lost -/

/-- What has been dropped: handed over, in hand, or behind a call that broke down. -/
def seen (u : Underway (σ × List (Expired P)) P) (lost : List (Breakdown P)) : List (Expired P) :=
  u.finisher.2 ++ u.inHand ++ lost.flatMap (·.behind)

theorem mem_seen {u : Underway (σ × List (Expired P)) P} {lost : List (Breakdown P)} {x : Expired P} :
    x ∈ u.seen lost ↔ x ∈ u.finisher.2 ∨ x ∈ u.inHand ∨ ∃ d ∈ lost, x ∈ d.behind := by
  simp only [seen, List.mem_append, List.mem_flatMap, or_assoc]

/-- The breakdowns so far: one for each worker that is lost, with a call in which the finisher panicked. -/
structure BrokenDown (f : Finisher σ P) (lost : List (Breakdown P)) (u : Underway (σ × List (Expired P)) P) :
    Prop where
  workers : (lost.map (·.worker)).Nodup
  gone : ∀ d ∈ lost, ∃ sweeper, u.sweepers[d.worker]? = some sweeper ∧ sweeper.lost = true
  panicked : ∀ d ∈ lost, d.call ∈ u.finisher.2 ∧ ∃ state, (f state d.call).2.outcome = .panicked

/-- What has become of the tracks of `s`. -/
structure Spared (f : Finisher σ P) (s : Stack P) (lost : List (Breakdown P))
    (u : Underway (σ × List (Expired P)) P) : Prop where
  unarmed : u.stack.armed = none
  named : ∀ l ∈ u.stack.layers, Stack.Named l.rows
  depth : u.stack.depth = s.depth
  broken : BrokenDown f lost u
  stored : ∀ key, (s.base.find? key).isSome = true →
    (u.stack.base.find? key).isSome = true ∨ ∃ x ∈ u.seen lost, x.entry.key = key
  expired : ∀ x, s.expired? s.depth x.entry.key = some x → f.LeavesOut x.entry.key →
    u.stack.expired? s.depth x.entry.key = some x ∨ x ∈ u.seen lost

section Spared

variable {f : Finisher σ P} {s : Stack P} {sharing : Sharing} {lost : List (Breakdown P)} {i : Nat} {w : Walk}
variable {u u' : Underway (σ × List (Expired P)) P} {sweeper sweeper' : Sweeper P} {stack : Stack P}

theorem BrokenDown.worker_ne (h : BrokenDown f lost u) (hi : u.sweepers[i]? = some sweeper)
    (hsteady : sweeper.lost = false) {d : Breakdown P} (hd : d ∈ lost) : d.worker ≠ i := by
  rintro rfl
  obtain ⟨other, hother, hlost⟩ := h.gone d hd
  rw [hi] at hother
  cases hother
  rw [hsteady] at hlost
  cases hlost

theorem BrokenDown.of_set (h : BrokenDown f lost u) (hi : u.sweepers[i]? = some sweeper)
    (hsteady : sweeper.lost = false) (hcalls : u.finisher.2 ⊆ u'.finisher.2)
    (hsweepers : u'.sweepers = u.sweepers.set i sweeper') : BrokenDown f lost u' where
  workers := h.workers
  gone d hd := by
    rw [hsweepers, List.getElem?_set_ne (Ne.symm (h.worker_ne hi hsteady hd))]
    exact h.gone d hd
  panicked d hd := (h.panicked d hd).imp_left fun hcall => hcalls hcall

theorem BrokenDown.concat (h : BrokenDown f lost u) (hi : u.sweepers[i]? = some sweeper)
    (hsteady : sweeper.lost = false) (hcalls : u.finisher.2 ⊆ u'.finisher.2)
    (hsweepers : u'.sweepers = u.sweepers.set i sweeper') (hlost : sweeper'.lost = true) {d : Breakdown P}
    (hworker : d.worker = i) (hcall : d.call ∈ u'.finisher.2)
    (hpanic : ∃ state, (f state d.call).2.outcome = .panicked) : BrokenDown f (lost ++ [d]) u' := by
  have hold := h.of_set hi hsteady hcalls hsweepers
  refine { workers := ?workers, gone := ?gone, panicked := ?panicked }
  case workers =>
    rw [List.map_append, List.map_singleton]
    refine List.nodup_append.2 ⟨h.workers, List.nodup_singleton _, fun j hj j' hj' heq => ?_⟩
    obtain ⟨d', hd', rfl⟩ := List.mem_map.1 hj
    exact h.worker_ne hi hsteady hd' (heq.trans ((List.mem_singleton.1 hj').trans hworker))
  case gone =>
    intro d' hd'
    rcases List.mem_append.1 hd' with hd' | hd'
    · exact hold.gone d' hd'
    · obtain rfl := List.mem_singleton.1 hd'
      refine ⟨sweeper', ?_, hlost⟩
      rw [hsweepers, hworker, List.getElem?_set_self (List.getElem?_eq_some_iff.1 hi).1]
  case panicked =>
    intro d' hd'
    rcases List.mem_append.1 hd' with hd' | hd'
    · exact hold.panicked d' hd'
    · obtain rfl := List.mem_singleton.1 hd'
      exact ⟨hcall, hpanic⟩

theorem Spared.swept_turn (h : Spared f s lost u) {found : List (Expired P)} (hi : u.sweepers[i]? = some sweeper)
    (hsteady : sweeper.lost = false) (hbatch : sweeper.batch = [])
    (hsweep : u.stack.sweepPart u.stack.depth w sharing sweeper.part sweeper.parts = (stack, found)) :
    Spared f s lost { u with stack, sweepers := u.sweepers.set i { sweeper with batch := found } } := by
  have hspares := Stack.spares_sweepPart h.unarmed h.named hsweep
  obtain ⟨u', hu'⟩ : ∃ u' : Underway (σ × List (Expired P)) P,
      u' = { u with stack, sweepers := u.sweepers.set i { sweeper with batch := found } } := ⟨_, rfl⟩
  have hcalls : u'.finisher = u.finisher := by rw [hu']
  have hhand : ∀ x, x ∈ u'.inHand ↔ x ∈ u.inHand ∨ x ∈ found := by
    intro x
    rw [hu', inHand, (perm_batches_of_swept hi hbatch rfl).mem_iff, List.mem_append]
    rfl
  have hseen : ∀ x, x ∈ u.seen lost ∨ x ∈ found → x ∈ u'.seen lost := by
    intro x hx
    rw [mem_seen, hhand, hcalls]
    rw [mem_seen] at hx
    tauto
  rw [← hu']
  refine
    { unarmed := by rw [hu']; exact hspares.unarmed
      named := by rw [hu']; exact hspares.named
      depth := by rw [hu']; exact hspares.depth.trans h.depth
      broken := h.broken.of_set hi hsteady (by rw [hcalls]; exact List.Subset.refl _) (by rw [hu'])
      stored := fun key hkey => ?stored
      expired := fun x hx hout => ?expired }
  case stored =>
    rcases h.stored key hkey with hstored | ⟨x, hx, hxkey⟩
    · rcases hspares.stored key hstored with hstored' | ⟨x, hx, hxkey⟩
      · exact .inl (by rw [hu']; exact hstored')
      · exact .inr ⟨x, hseen x (.inr hx), hxkey⟩
    · exact .inr ⟨x, hseen x (.inl hx), hxkey⟩
  case expired =>
    rcases h.expired x hx hout with hexpired | hx'
    · rw [← h.depth] at hexpired ⊢
      rcases hspares.expired x hexpired with hexpired' | hx'
      · exact .inl (by rw [hu']; exact hexpired')
      · exact .inr (hseen x (.inr hx'))
    · exact .inr (hseen x (.inl hx'))

theorem mem_inHand_cases (hi : u.sweepers[i]? = some sweeper) (sweeper' : Sweeper P) {x : Expired P}
    (hx : x ∈ u.inHand) : x ∈ sweeper.batch ∨ x ∈ (u.sweepers.set i sweeper').flatMap (·.batch) := by
  obtain ⟨first, last, hsplit, -, hset⟩ := exists_eq_append_of_getElem? hi sweeper'
  rw [inHand, hsplit] at hx
  rw [hset]
  simp only [List.flatMap_append, List.flatMap_cons, List.mem_append] at hx ⊢
  tauto

theorem mem_batches_set (hi : u.sweepers[i]? = some sweeper) {x : Expired P}
    (hx : x ∈ sweeper'.batch) : x ∈ (u.sweepers.set i sweeper').flatMap (·.batch) := by
  have hlt := (List.getElem?_eq_some_iff.1 hi).1
  exact List.mem_flatMap.2 ⟨sweeper', List.mem_of_getElem? (List.getElem?_set_self hlt), hx⟩

theorem mem_seen_of_handed {x : Expired P} {rest : List (Expired P)} {lasted : Bool} {lost' : List (Breakdown P)}
    (hi : u.sweepers[i]? = some sweeper)
    (hbatch : sweeper.batch = x :: rest) (hcalls : u'.finisher.2 = u.finisher.2 ++ [x])
    (hsweepers : u'.sweepers = u.sweepers.set i
      { sweeper with batch := if lasted then rest else [], lost := !lasted })
    (hlost' : lost' = if lasted then [] else [⟨i, x, rest⟩]) {y : Expired P} (hy : y ∈ u.seen lost) :
    y ∈ u'.seen (lost ++ lost') := by
  rw [mem_seen, inHand, hcalls, hsweepers]
  rcases mem_seen.1 hy with hy | hy | ⟨d, hd, hy⟩
  · exact .inl (List.mem_append_left _ hy)
  · rcases mem_inHand_cases hi { sweeper with batch := if lasted then rest else [], lost := !lasted } hy with hy | hy
    · rw [hbatch] at hy
      rcases List.mem_cons.1 hy with rfl | hy
      · exact .inl (List.mem_append_right _ (List.mem_singleton_self y))
      · cases lasted with
        | true => exact .inr (.inl (mem_batches_set hi hy))
        | false =>
          refine .inr (.inr ⟨⟨i, x, rest⟩, List.mem_append_right _ ?_, hy⟩)
          rw [hlost']
          exact List.mem_singleton_self _
    · exact .inr (.inl hy)
  · exact .inr (.inr ⟨d, List.mem_append_left _ hd, hy⟩)

theorem Spared.handed_turn (h : Spared f s lost u) {x : Expired P} {rest : List (Expired P)}
    {finisher : σ × List (Expired P)} {lasted : Bool} (hi : u.sweepers[i]? = some sweeper)
    (hsteady : sweeper.lost = false) (hbatch : sweeper.batch = x :: rest)
    (hhanded : u.stack.handOver f.kept u.finisher [x] = (finisher, stack, lasted)) :
    Spared f s (lost ++ (u.breakdown? f.kept i).toList)
      ⟨stack, finisher, u.sweepers.set i { sweeper with batch := if lasted then rest else [], lost := !lasted }⟩ := by
  have hkept : f.kept u.finisher x = (((f u.finisher.1 x).1, u.finisher.2 ++ [x]), (f u.finisher.1 x).2) := rfl
  obtain ⟨log, hcall⟩ := Stack.handOver_singleton f.kept u.finisher u.stack x
  rw [hhanded, hkept] at hcall
  simp only [Prod.mk.injEq] at hcall
  obtain ⟨rfl, hstack, hlasted⟩ := hcall
  have hdown : (u.breakdown? f.kept i).toList = if lasted then [] else [⟨i, x, rest⟩] := by
    rw [breakdown?_of_batch f.kept hi hsteady hbatch, hkept, hlasted]
    by_cases ho : (f u.finisher.1 x).2.outcome = .panicked <;> simp [ho]
  obtain ⟨u', hu'⟩ : ∃ u' : Underway (σ × List (Expired P)) P, u' = ⟨stack, ((f u.finisher.1 x).1, u.finisher.2 ++ [x]),
      u.sweepers.set i { sweeper with batch := if lasted then rest else [], lost := !lasted }⟩ := ⟨_, rfl⟩
  have hseen : ∀ y ∈ u.seen lost, y ∈ u'.seen (lost ++ (u.breakdown? f.kept i).toList) := fun y hy =>
    mem_seen_of_handed hi hbatch (by rw [hu']) (by rw [hu']) hdown hy
  have hstack' : u'.stack = u.stack.filled u.stack.depth (fun _ => (f u.finisher.1 x).2.reports) log := by
    rw [hu', hstack]
  rw [← hu']
  refine
    { unarmed := by rw [hstack']; exact h.unarmed
      named := by rw [hstack']; exact Stack.named_filled h.named _ _ _
      depth := by rw [hstack', Stack.depth_filled]; exact h.depth
      broken := ?broken
      stored := fun key hkey => ?stored
      expired := fun y hy hout => ?expired }
  case broken =>
    have hcalls : u.finisher.2 ⊆ u'.finisher.2 := by
      rw [hu']
      exact List.subset_append_left ..
    rw [hdown]
    cases lasted with
    | true =>
      rw [if_pos rfl, List.append_nil]
      exact h.broken.of_set hi hsteady hcalls (by rw [hu'])
    | false =>
      have hcall : x ∈ u'.finisher.2 := by
        rw [hu']
        exact List.mem_append_right _ (List.mem_singleton_self x)
      have hpanic : (f u.finisher.1 x).2.outcome = .panicked := by simpa using hlasted.symm
      exact h.broken.concat hi hsteady hcalls (by rw [hu']) rfl rfl hcall ⟨_, hpanic⟩
  case stored =>
    rcases h.stored key hkey with hstored | ⟨y, hy, hykey⟩
    · exact .inl (by rw [hstack']; exact Stack.isSome_find?_filled hstored)
    · exact .inr ⟨y, hseen y hy, hykey⟩
  case expired =>
    rcases h.expired y hy hout with hexpired | hy'
    · left
      rw [hstack', ← h.depth, Stack.expired?_filled_of_unnamed (hout _ _), h.depth]
      exact hexpired
    · exact .inr (hseen y hy')

theorem Spared.turn (h : Spared f s lost u) (sharing : Sharing) (i : Nat) (w : Walk) :
    Spared f s (lost ++ (u.breakdown? f.kept i).toList) (u.turn f.kept sharing i w) := by
  have hturned := turned f.kept sharing u i w
  generalize u.turn f.kept sharing i w = u' at hturned ⊢
  cases hturned with
  | idle hidle =>
    rw [breakdown?_of_idle f.kept hidle, Option.toList_none, List.append_nil]
    exact h
  | swept hi hsteady hbatch hsweep =>
    rw [breakdown?_of_empty f.kept hi hbatch, Option.toList_none, List.append_nil]
    exact h.swept_turn hi hsteady hbatch hsweep
  | handed hi hsteady hbatch hhanded => exact h.handed_turn hi hsteady hbatch hhanded

theorem Spared.run (h : Spared f s lost u) (sharing : Sharing) (turns : List (Nat × Walk)) :
    Spared f s (lost ++ u.breakdowns f.kept sharing turns) (u.run f.kept sharing turns) := by
  induction turns generalizing lost u with
  | nil =>
    rw [breakdowns, List.append_nil]
    exact h
  | cons t turns ih =>
    rw [breakdowns, ← List.append_assoc]
    exact ih (h.turn sharing t.1 t.2)

end Spared

end Underway

namespace Service

variable {s : Stack P}

theorem spared_start (f : Finisher σ P) (ha : s.armed = none) (hnamed : ∀ l ∈ s.layers, Stack.Named l.rows)
    (state : σ) (crew : Crew) :
    (Underway.ofService (start ⟨s, (state, []), crew⟩)).Spared f s [] where
  unarmed := ha
  named := hnamed
  depth := rfl
  broken := ⟨List.nodup_nil, nofun, nofun⟩
  stored _ hkey := .inl hkey
  expired _ hx _ := .inl hx

theorem ofService_rounds (f : Finisher σ P) (sharing : Sharing) (v : Service σ P) (order : List (Nat × Walk)) :
    ∃ turns, Underway.ofService (order.foldl (fun v t => v.round f t.2 sharing t.1) v) =
      (Underway.ofService v).run f sharing turns := by
  induction order generalizing v with
  | nil => exact ⟨[], rfl⟩
  | cons t order ih =>
    obtain ⟨n, hround⟩ := Underway.ofService_round f sharing v t.1 t.2
    obtain ⟨turns, hrest⟩ := ih (v.round f t.2 sharing t.1)
    refine ⟨List.replicate n (t.1, t.2) ++ turns, ?_⟩
    rw [List.foldl_cons, hrest, hround, Underway.run, Underway.run, Underway.run, List.foldl_append]

theorem inHand_ofService (v : Service σ P) : (Underway.ofService v).inHand = [] := by
  refine List.flatMap_eq_nil_iff.2 fun sweeper hsweeper => ?_
  obtain ⟨i, hi⟩ := List.getElem?_of_mem hsweeper
  rw [Underway.ofService, List.getElem?_mapIdx] at hi
  obtain ⟨worker, -, rfl⟩ := Option.map_eq_some_iff.1 hi
  rfl

/-- A crew is started, and its workers have turns in whatever order; a finisher may accept, refuse or panic as it
likes. What is stored at first is still stored, or has been dropped: then it has been handed over, or is in hand, or
is behind a call in which the finisher panicked, and of each worker there is at most one such call. So it is with
what has expired at first, to the letter, if the finisher does not report it again. Rounds of the whole crew until
it is stopped are such turns, and nothing is in hand after them. -/
theorem lost_only_behind (f : Finisher σ P) (ha : s.armed = none) (hnamed : ∀ l ∈ s.layers, Stack.Named l.rows)
    (state : σ) (crew : Crew) (sharing : Sharing) :
    let v : Service (σ × List (Expired P)) P := ⟨s, (state, []), crew⟩
    (∀ turns,
      let u := (Underway.ofService v.start).run f.kept sharing turns
      let lost := (Underway.ofService v.start).breakdowns f.kept sharing turns
      (lost.map (·.worker)).Nodup ∧
        (∀ d ∈ lost, d.call ∈ u.finisher.2 ∧ ∃ state, (f state d.call).2.outcome = .panicked) ∧
        (∀ key, (s.base.find? key).isSome = true →
          (u.stack.base.find? key).isSome = true ∨ ∃ x ∈ u.seen lost, x.entry.key = key) ∧
        ∀ x, s.expired? s.depth x.entry.key = some x → f.LeavesOut x.entry.key →
          u.stack.base.find? x.entry.key = some x.entry ∨ x ∈ u.finisher.2 ∨ x ∈ u.inHand ∨
            ∃ d ∈ lost, x ∈ d.behind) ∧
      ∀ order : List (Nat × Walk), ∃ turns,
        let u := (Underway.ofService v.start).run f.kept sharing turns
        let stopped := (order.foldl (fun v t => v.round f.kept t.2 sharing t.1) v.start).stop
        stopped.stack.base = u.stack.base ∧ stopped.finisher = u.finisher ∧ u.inHand = [] := by
  intro v
  refine ⟨fun turns => ?_, fun order => ?_⟩
  · have hspared := (spared_start f ha hnamed state crew).run sharing turns
    rw [List.nil_append] at hspared
    refine ⟨hspared.broken.workers, hspared.broken.panicked, hspared.stored, fun x hx hout => ?_⟩
    rcases hspared.expired x hx hout with hexpired | hseen
    · exact .inl (Stack.expired?_eq_some_iff.1 hexpired).2.1
    · exact .inr (Underway.mem_seen.1 hseen)
  · obtain ⟨turns, hturns⟩ := ofService_rounds f.kept sharing v.start order
    refine ⟨turns, ?_⟩
    dsimp only
    rw [← hturns]
    exact ⟨rfl, rfl, inHand_ofService _⟩

/-- Panics when it is called with a track that is marked so. -/
def squeamish : Finisher Unit String := fun state x =>
  (state, { outcome := if x.entry.payload = "x" then .panicked else .accepted })

theorem lost_only_behind_x :
    let v : Service (Unit × List (Expired String)) String := ⟨Stack.sharedOut, ((), []), .ofSize 1 (.ofSeconds 1)⟩
    let turns := [(0, Walk.ascending), (0, .ascending), (0, .ascending)]
    let u := (Underway.ofService v.start).run squeamish.kept .byName turns
    let lost := (Underway.ofService v.start).breakdowns squeamish.kept .byName turns
    lost.map (fun d => (d.worker, d.call.entry.payload, d.behind.map (·.entry.payload))) = [(0, "x", ["y"])] ∧
      u.finisher.2.map (·.entry.payload) = ["x"] ∧ u.stack.count "b" = 0 ∧
      ∀ x, Stack.sharedOut.expired? 1 x.entry.key = some x →
        u.stack.base.find? x.entry.key = some x.entry ∨ x ∈ u.finisher.2 ∨ x ∈ u.inHand ∨
          ∃ d ∈ lost, x ∈ d.behind := by
  have hreachable : Stack.sharedOut.Reachable := ⟨_, _, rfl⟩
  have hout : ∀ key, squeamish.LeavesOut key := fun _ _ _ _ => nofun
  have h := lost_only_behind squeamish (s := Stack.sharedOut) rfl (Stack.named_of_reachable hreachable) ()
    (.ofSize 1 (.ofSeconds 1)) .byName
  exact ⟨by decide +kernel, by decide +kernel, by decide +kernel, fun x hx =>
    (h.1 [(0, .ascending), (0, .ascending), (0, .ascending)]).2.2.2 x hx (hout _)⟩

/-- The finisher panics in the first call of a batch of two, and the second track is neither handed over nor stored. -/
theorem rest_of_batch_lost :
    let v : Service (Outlet String) String := ⟨Stack.sharedOut, .recorder .panic [], .ofSize 1 (.ofSeconds 1)⟩
    let stopped := (v.start.rounds Outlet.finish .ascending .byName).stop
    Stack.sharedOut.Reachable ∧ Stack.sharedOut.armed = none ∧
      ¬ ∀ x, Stack.sharedOut.expired? 1 x.entry.key = some x →
        x ∈ stopped.finisher.waiting ∨ (stopped.stack.base.find? x.entry.key).isSome = true := by
  intro v stopped
  refine ⟨⟨_, _, rfl⟩, rfl, fun h => ?_⟩
  have hlost : ∃ x ∈ (Stack.sharedOut.sweep 1 .ascending).2, Stack.sharedOut.expired? 1 x.entry.key = some x ∧
      x ∉ stopped.finisher.waiting ∧ (stopped.stack.base.find? x.entry.key).isSome = false := by decide +kernel
  obtain ⟨x, -, hx, hcalls, hstored⟩ := hlost
  rcases h x hx with hcall | hfind
  · exact hcalls hcall
  · rw [hstored] at hfind
    cases hfind

end Service

end LiveTracks
