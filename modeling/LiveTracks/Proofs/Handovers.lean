import Mathlib.Data.List.Pairwise
import LiveTracks.Proofs.Takings

/-!
# Sweeps on demand beside the workers

The workers share out the cameras, but a sweep on demand takes in all of them. So it may come upon an entry that a
worker has taken and is still dropping, or the other way round, and then both sweeps hand the entry over
(`handed_over_twice`). In no other way is an entry handed over again (`handed_over_once_unless_overlap`).
-/

namespace LiveTracks

variable {P : Type}

/-- The cameras that sweeper `p` sweeps. The first `n` sweepers are the workers, all others sweep on demand. -/
def Sharing.reach (sharing : Sharing) (n p : Nat) (c : CameraId) : Bool :=
  if p < n then sharing.share n p c else true

theorem Sharing.le_of_reach {sharing : Sharing} {n p p' : Nat} {c : CameraId} (hne : p ≠ p')
    (h : sharing.reach n p c = true) (h' : sharing.reach n p' c = true) : n ≤ p ∨ n ≤ p' := by
  by_cases hp : p < n
  · by_cases hp' : p' < n
    · rw [reach, if_pos hp] at h
      rw [reach, if_pos hp'] at h'
      exact absurd ((beq_iff_eq.1 h).symm.trans (beq_iff_eq.1 h')) hne
    · exact .inr (Nat.le_of_not_lt hp')
  · exact .inl (Nat.le_of_not_lt hp)

namespace Shift

variable {reach : Nat → CameraId → Bool} {s : Shift P}

theorem prefix_stepBy (reach : Nat → CameraId → Bool) (s : Shift P) (m : Move P) :
    s.jobs <+: (s.stepBy reach m).jobs ∧ s.takings <+: (s.stepBy reach m).takings := by
  cases m with
  | setClock now => exact ⟨List.prefix_rfl, List.prefix_rfl⟩
  | ask job =>
    by_cases ha : s.admits job = true
    · rw [stepBy_ask ha]
      exact ⟨List.prefix_append .., List.prefix_rfl⟩
    · rw [stepBy_ask_of_not ha]
      exact ⟨List.prefix_rfl, List.prefix_rfl⟩
  | go i =>
    cases hi : s.traffic.calls[i]? with
    | none =>
      rw [stepBy_go_of_none hi]
      exact ⟨List.prefix_rfl, List.prefix_rfl⟩
    | some c =>
      rw [stepBy_go hi]
      exact ⟨List.prefix_rfl, List.prefix_append ..⟩

theorem jobs_runBy_of_some {i : Nat} {job : Job P} (h : s.jobs[i]? = some job) (moves : List (Move P)) :
    (s.runBy reach moves).jobs[i]? = some job := by
  induction moves using List.reverseRecOn with
  | nil => exact h
  | append_singleton moves m ih =>
    obtain ⟨new, hnew⟩ := (prefix_stepBy reach (s.runBy reach moves) m).1
    rw [runBy_concat, ← hnew, List.getElem?_append_left (List.getElem?_eq_some_iff.1 ih).1]
    exact ih

end Shift

/-- A shift, and the calls of the finisher so far, each for something that a sweep has taken. -/
structure Handovers (P : Type) where
  shift : Shift P
  calls : List (Taking P)

namespace Handovers

def ofPolicies (policies : List Policy) : Handovers P := ⟨.ofPolicies policies, []⟩

inductive Move (P : Type) where
  | inShift (m : Shift.Move P)
  /-- Sweep `i` hands over the next track that it has found, as `Stack.handOver` does one after the other. -/
  | handOver (i : Nat)

def Move.inShift? : Move P → Option (Shift.Move P)
  | .inShift m => some m
  | .handOver _ => none

/-- What sweep `i` has to hand over next. It hands over nothing before it has ended. -/
def next? (h : Handovers P) (i : Nat) : Option (Taking P) :=
  if (h.shift.traffic.calls[i]?).any (·.isDone) then
    (h.shift.takings.filter (·.sweep == i))[(h.calls.filter (·.sweep == i)).length]?
  else none

def step (reach : Nat → CameraId → Bool) (h : Handovers P) : Move P → Handovers P
  | .inShift m => { h with shift := h.shift.stepBy reach m }
  | .handOver i => { h with calls := h.calls ++ (h.next? i).toList }

def run (reach : Nat → CameraId → Bool) (h : Handovers P) (moves : List (Move P)) : Handovers P :=
  moves.foldl (step reach) h

variable {reach : Nat → CameraId → Bool} {h : Handovers P}

theorem run_concat (h : Handovers P) (moves : List (Move P)) (m : Move P) :
    h.run reach (moves ++ [m]) = (h.run reach moves).step reach m := by
  rw [run, List.foldl_append]
  rfl

theorem shift_run (h : Handovers P) (moves : List (Move P)) :
    (h.run reach moves).shift = h.shift.runBy reach (moves.filterMap Move.inShift?) := by
  induction moves using List.reverseRecOn with
  | nil => rfl
  | append_singleton moves m ih =>
    rw [run_concat, List.filterMap_append]
    cases m with
    | inShift m =>
      have hlast : [Move.inShift m].filterMap Move.inShift? = [m] := rfl
      rw [hlast, Shift.runBy_concat, ← ih]
      rfl
    | handOver i =>
      have hlast : [(Move.handOver i : Move P)].filterMap Move.inShift? = [] := rfl
      rw [hlast, List.append_nil, ← ih]
      rfl

/-! ### The calls of each sweep -/

/-- Each sweep hands over what it has found one by one. -/
def Orderly (h : Handovers P) : Prop :=
  ∀ i, h.calls.filter (·.sweep == i) <+: h.shift.takings.filter (·.sweep == i)

theorem Orderly.step (ho : h.Orderly) (m : Move P) : (h.step reach m).Orderly := by
  cases m with
  | inShift m => exact fun i => (ho i).trans ((Shift.prefix_stepBy reach h.shift m).2.filter _)
  | handOver i =>
    intro i'
    cases hx : h.next? i with
    | none =>
      simp only [Handovers.step, hx, Option.toList_none, List.append_nil]
      exact ho i'
    | some x =>
      obtain ⟨-, hget⟩ := Option.ite_none_right_eq_some.1 hx
      have hsweep : x.sweep = i := beq_iff_eq.1 (List.mem_filter.1 (List.mem_of_getElem? hget)).2
      simp only [Handovers.step, hx, Option.toList_some, List.filter_append]
      by_cases hi : x.sweep = i'
      · subst hsweep hi
        have hown : [x].filter (·.sweep == x.sweep) = [x] := List.filter_cons_of_pos (beq_self_eq_true _)
        rw [hown]
        obtain ⟨rest, hrest⟩ := ho x.sweep
        rw [← hrest, List.getElem?_append_right (Nat.le_refl _), Nat.sub_self] at hget
        cases rest with
        | nil => cases hget
        | cons y rest =>
          cases hget
          exact ⟨rest, by rw [← hrest, List.append_assoc, List.singleton_append]⟩
      · rw [List.filter_cons_of_neg (by rwa [beq_iff_eq]), List.filter_nil, List.append_nil]
        exact ho i'

theorem orderly_run (policies : List Policy) (moves : List (Move P)) :
    ((ofPolicies policies : Handovers P).run reach moves).Orderly := by
  induction moves using List.reverseRecOn with
  | nil => exact fun _ => List.prefix_rfl
  | append_singleton moves m ih =>
    rw [run_concat]
    exact ih.step m

theorem Orderly.mem_takings (ho : h.Orderly) {x : Taking P} (hx : x ∈ h.calls) : x ∈ h.shift.takings := by
  have hfilter : x ∈ h.calls.filter (·.sweep == x.sweep) := List.mem_filter.2 ⟨hx, beq_self_eq_true _⟩
  exact (List.mem_filter.1 ((ho x.sweep).subset hfilter)).1

/-! ### Handed over twice -/

/-- At some moment sweep `x.sweep` is still dropping the entry that it has taken, and sweep `y.sweep` takes it as
well. The two are sweeps of different sweepers, and one of them is a sweep on demand. -/
def Overlapped (policies : List Policy) (sharing : Sharing) (n : Nat) (moves : List (Shift.Move P))
    (x y : Taking P) : Prop :=
  ∃ before later, moves = before ++ .go y.sweep :: later ∧
    let s := (Shift.ofPolicies policies).runBy (sharing.reach n) before
    (∃ c, s.traffic.calls[x.sweep]? = some c ∧ c.isDropping y.found.entry.key = true) ∧
      (∃ c, s.traffic.calls[y.sweep]? = some c ∧ c.takes? s.traffic.stack = some y.found) ∧
      ∃ p w p' w', s.jobs[x.sweep]? = some (.sweep p w) ∧ s.jobs[y.sweep]? = some (.sweep p' w') ∧ p ≠ p' ∧
        (n ≤ p ∨ n ≤ p')

/-- What two takings, or two calls of the finisher, have to do with each other if they are of one entry. -/
def Clash (policies : List Policy) (sharing : Sharing) (n : Nat) (moves : List (Shift.Move P)) (x y : Taking P) :
    Prop :=
  x.source = y.source → x.found.entry = y.found.entry ∧ x.sweep ≠ y.sweep ∧
    (Overlapped policies sharing n moves x y ∨ Overlapped policies sharing n moves y x)

variable {policies : List Policy} {sharing : Sharing} {n : Nat}

theorem Overlapped.sweep_ne {moves : List (Shift.Move P)} {x y : Taking P}
    (h : Overlapped policies sharing n moves x y) : x.sweep ≠ y.sweep := by
  obtain ⟨before, later, -, -, -, p, w, p', w', hp, hp', hne, -⟩ := h
  intro heq
  rw [heq, hp'] at hp
  cases hp
  exact hne rfl

theorem clash_comm {moves : List (Shift.Move P)} {x y : Taking P} (h : Clash policies sharing n moves x y) :
    Clash policies sharing n moves y x := by
  intro hsource
  obtain ⟨hentry, hsweep, hover⟩ := h hsource.symm
  exact ⟨hentry.symm, Ne.symm hsweep, hover.symm⟩

theorem clash_takings (policies : List Policy) (sharing : Sharing) (n : Nat) (moves : List (Shift.Move P)) :
    ((Shift.ofPolicies policies).runBy (sharing.reach n) moves).takings.Pairwise
      (Clash policies sharing n moves) := by
  rw [List.pairwise_iff_getElem]
  intro a b ha hb hab hsource
  obtain ⟨hentry, before, later, hmoves, hover⟩ := Shift.taken_twice policies moves hab (List.getElem?_eq_getElem ha)
    (List.getElem?_eq_getElem hb) hsource
  obtain ⟨p, w, p', w', hp, hp', hne, hreach, hreach'⟩ := hover.sweepers
  have hoverlapped : Overlapped policies sharing n moves _ _ :=
    ⟨before, later, hmoves, hover.dropping, hover.taking, p, w, p', w', hp, hp', hne,
      Sharing.le_of_reach hne hreach hreach'⟩
  exact ⟨hentry, hoverlapped.sweep_ne, .inl hoverlapped⟩

theorem Orderly.clash_calls (ho : h.Orderly) {moves : List (Shift.Move P)}
    (htakings : h.shift.takings.Pairwise (Clash policies sharing n moves)) :
    h.calls.Pairwise (Clash policies sharing n moves) := by
  have hwithin : ∀ i, (h.calls.filter (·.sweep == i)).Pairwise fun x y => x.source ≠ y.source := by
    intro i
    refine ((htakings.filter (·.sweep == i)).imp_of_mem fun hx hy hclash hsource => ?_).sublist (ho i).sublist
    have hxi := beq_iff_eq.1 (List.mem_filter.1 hx).2
    have hyi := beq_iff_eq.1 (List.mem_filter.1 hy).2
    exact (hclash hsource).2.1 (hxi.trans hyi.symm)
  rw [List.pairwise_iff_getElem]
  intro a b ha hb hab
  by_cases hsweep : h.calls[a].sweep = h.calls[b].sweep
  · have hpair := List.pairwise_filter.1 (hwithin h.calls[a].sweep)
    rw [List.pairwise_iff_getElem] at hpair
    exact fun hsource => absurd hsource (hpair a b ha hb hab (beq_self_eq_true _) (beq_iff_eq.2 hsweep.symm))
  · have hsymm : Std.Symm (Clash policies sharing n moves) := ⟨fun _ _ => clash_comm⟩
    have hne : h.calls[a] ≠ h.calls[b] := fun heq => hsweep (congrArg Taking.sweep heq)
    exact htakings.forall (ho.mem_takings (List.getElem_mem ha)) (ho.mem_takings (List.getElem_mem hb)) hne

/-- Workers have turns and sweeps on demand are made beside them, while callers report, remove and clear whatever they
like, and the single accesses of all these calls come in any order. Each sweep calls the finisher with what it has
given back, one after the other, and each entry has been stored by a report of its key and payload. If two of the
calls are for what the same report has stored, then two sweeps have taken the entry at the same time, and one of them
was a sweep on demand. So nothing is handed over twice as long as there are only workers. -/
theorem handed_over_once_unless_overlap (policies : List Policy) (sharing : Sharing) (n : Nat)
    (moves : List (Move P)) :
    let h := (ofPolicies policies).run (sharing.reach n) moves
    (∀ i found, h.shift.traffic.calls[i]? = some (.done (.expired found)) →
        (h.calls.filter (·.sweep == i)).map (·.found) <+: found) ∧
      (∀ x ∈ h.calls, ∃ j, x.source = some j ∧ h.shift.Reported j x.found.entry) ∧
      h.calls.Pairwise (Clash policies sharing n (moves.filterMap Move.inShift?)) ∧
      ((∀ (i p : Nat) (w : Walk), h.shift.jobs[i]? = some (.sweep p w) → p < n) →
        (h.calls.map (·.source)).Nodup) := by
  intro h
  have ho : h.Orderly := orderly_run policies moves
  have hshift : h.shift = (Shift.ofPolicies policies).runBy (sharing.reach n) (moves.filterMap Move.inShift?) :=
    shift_run (ofPolicies policies) moves
  have htraced : Shift.Traced (sharing.reach n) h.shift := hshift ▸ Shift.traced_runBy policies _
  have hclash : h.calls.Pairwise (Clash policies sharing n (moves.filterMap Move.inShift?)) :=
    ho.clash_calls (hshift ▸ clash_takings policies sharing n _)
  refine ⟨fun i found hi => ?_, fun x hx => htraced.taken (ho.mem_takings hx), hclash, fun hworkers => ?_⟩
  · have hfound : found = (h.shift.takings.filter (·.sweep == i)).map (·.found) := htraced.found hi
    rw [hfound]
    exact (ho i).map _
  · -- two sweeps that overlap are jobs of the whole run, and one of them is not made by a worker
    have hnever : ∀ x y, ¬ Overlapped policies sharing n (moves.filterMap Move.inShift?) x y := by
      rintro x y ⟨before, later, hmoves, -, -, p, w, p', w', hp, hp', -, hdemand⟩
      have hshift' : h.shift = ((Shift.ofPolicies policies).runBy (sharing.reach n) before).runBy (sharing.reach n)
          (.go y.sweep :: later) := by
        rw [hshift, hmoves, Shift.runBy_append]
      have hlt := hworkers x.sweep p w (hshift' ▸ Shift.jobs_runBy_of_some hp _)
      have hlt' := hworkers y.sweep p' w' (hshift' ▸ Shift.jobs_runBy_of_some hp' _)
      omega
    rw [List.nodup_iff_pairwise_ne, List.pairwise_map]
    refine hclash.imp fun {x y} hxy hsource => ?_
    rcases (hxy hsource).2.2 with hover | hover
    · exact hnever x y hover
    · exact hnever y x hover

/-- A track that has expired when one worker and a sweep on demand begin. -/
def bothAsked : List (Shift.Move String) :=
  [.ask (.report ⟨"a", 1, "x"⟩), .go 0, .go 0, .go 0, .go 0, .setClock (.mk 5000000000), .ask (.sweep 0 .ascending),
    .ask (.sweep 1 .ascending)]

def turns (i m : Nat) : List (Shift.Move String) := List.replicate m (.go i)

/-- The sweep on demand goes through while the worker has yet to drop what it has taken. -/
def overlapping : List (Move String) :=
  (bothAsked ++ turns 1 5 ++ turns 2 10 ++ turns 1 5).map Move.inShift ++ [Move.handOver 1, Move.handOver 2]

def doubled : Handovers String :=
  (ofPolicies [⟨.ofSeconds 3, .ofSeconds 30⟩]).run (Sharing.byName.reach 1) overlapping

/-- The same without the sweep on demand. -/
def single : Handovers String :=
  (ofPolicies [⟨.ofSeconds 3, .ofSeconds 30⟩]).run (Sharing.byName.reach 1)
    ((bothAsked.take 7 ++ turns 1 10).map Move.inShift ++ [Move.handOver 1, Move.handOver 1])

theorem handed_over_once_unless_overlap_single :
    single.calls.map (·.found.entry.payload) = ["x"] ∧ (single.calls.map (·.source)).Nodup ∧
      doubled.calls.Pairwise
        (Clash [⟨.ofSeconds 3, .ofSeconds 30⟩] .byName 1 (overlapping.filterMap Move.inShift?)) := by
  have hjobs : single.shift.jobs = [.report ⟨"a", 1, "x"⟩, .sweep 0 .ascending] := rfl
  have hworkers : ∀ (i p : Nat) (w : Walk), single.shift.jobs[i]? = some (.sweep p w) → p < 1 := by
    intro i p w hi
    rw [hjobs] at hi
    rcases List.mem_cons.1 (List.mem_of_getElem? hi) with hjob | hjob
    · cases hjob
    · cases List.mem_singleton.1 hjob
      exact Nat.one_pos
  obtain ⟨-, -, -, honce⟩ := handed_over_once_unless_overlap [⟨.ofSeconds 3, .ofSeconds 30⟩] .byName 1
    ((bothAsked.take 7 ++ turns 1 10).map Move.inShift ++ [Move.handOver 1, Move.handOver 1])
  obtain ⟨-, -, hclash, -⟩ := handed_over_once_unless_overlap [⟨.ofSeconds 3, .ofSeconds 30⟩] .byName 1 overlapping
  exact ⟨by decide +kernel, honce hworkers, hclash⟩

theorem handed_over_twice :
    doubled.calls.map (fun x => (x.sweep, x.source, x.found.entry.payload)) =
        [(1, some 0, "x"), (2, some 0, "x")] ∧
      ¬ ∀ (policies : List Policy) (n : Nat), 0 < n → ∀ moves : List (Move String),
        (((ofPolicies policies).run (Sharing.byName.reach n) moves).calls.map (·.source)).Nodup := by
  refine ⟨by decide +kernel, fun h => ?_⟩
  have honce := h [⟨.ofSeconds 3, .ofSeconds 30⟩] 1 Nat.one_pos overlapping
  exact absurd honce (by decide +kernel)

end Handovers

end LiveTracks
