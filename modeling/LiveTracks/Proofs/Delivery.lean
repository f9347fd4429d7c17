import LiveTracks.Finisher.Outlet
import LiveTracks.Proofs.CallDeeds
import LiveTracks.Proofs.Underway

/-!
# Where the tracks go

Whatever the sweepers have taken out of a stack is waiting for its handing over, or the queue has accepted it, or
the log says that it has not (`Delivery.Balanced`). This holds between any two moves: calls on any number of the
stack, sweeps, single handings over, and whatever happens at the other end of the queue.
-/

namespace LiveTracks

variable {P : Type}

/-! ### Failures in the log -/

def Event.isFailure : Event → Bool
  | .handoverFailed _ _ => true
  | _ => false

theorem Event.alien_isFailure : Event.Alien Event.isFailure :=
  ⟨fun _ => rfl, fun _ _ => rfl, fun _ _ => rfl, fun _ _ => rfl⟩

namespace Stack

def failures (s : Stack P) : List Event := s.log.filter Event.isFailure

theorem failures_logs (s : Stack P) (events : List Event) :
    (s.logs events).failures = s.failures ++ events.filter Event.isFailure := s.filter_log_logs _ events

theorem failures_registerAt (s : Stack P) (k : Nat) (r : Report P) : (s.registerAt k r).1.failures = s.failures :=
  s.filter_log_registerAt Event.alien_isFailure k r

theorem failures_step (s : Stack P) (st : Step P) : (s.step st).failures = s.failures :=
  s.filter_log_step Event.alien_isFailure st

theorem failures_sweepPart (s : Stack P) (k : Nat) (w : Walk) (sharing : Sharing) (part parts : Nat) :
    (s.sweepPart k w sharing part parts).1.failures = s.failures :=
  s.filter_log_sweepWhere Event.alien_isFailure k w _

theorem sweepPart_snd (s : Stack P) (k : Nat) (w : Walk) (sharing : Sharing) (part parts : Nat) :
    (s.sweepPart k w sharing part parts).2 = (s.partDeeds k w sharing part parts).filterMap Deed.found? :=
  s.sweepWhere_snd k w _

/-! ### Handing over to a queue -/

theorem absorb_of_quiet (s : Stack P) (outcome : Outcome) : s.absorb ⟨outcome, [], []⟩ = s := s.logs_nil

theorem handOver_of_sent {q q' : Queue (Expired P)} {x : Expired P} (h : q.send x = .ok q') (s : Stack P) :
    s.handOver Outlet.finish (.queue q) [x] = (.queue q', s, true) := by
  simp only [handOver, Outlet.finish, h, absorb_of_quiet]

theorem handOver_of_unsent {q : Queue (Expired P)} {x : Expired P} {e : SendError} (h : q.send x = .error e)
    (s : Stack P) :
    s.handOver Outlet.finish (.queue q) [x] =
      (.queue q, s.logs [.handoverFailed x.entry.key (Outlet.refusal x.entry.key e)], true) := by
  simp only [handOver, Outlet.finish, h, absorb_of_quiet]

end Stack

/-! ### Moves -/

/-- A stack with its sweepers and their queue. What has been swept, accepted, refused and received so far is kept
beside them, and nothing that runs reads it. -/
structure Delivery (P : Type) where
  work : Underway (Outlet P) P
  swept : List (Expired P) := []
  accepted : List (Expired P) := []
  refused : List (Expired P × String) := []
  received : List (Expired P) := []

namespace Delivery

def start (s : Stack P) (capacity : Nat) : Delivery P where
  work := ⟨s, .queue { capacity }, []⟩

inductive Move (P : Type) where
  | call (st : Step P)
  /-- There is one more sweeper: a worker of a crew, or somebody who has all cameras swept. -/
  | join (part parts : Nat)
  | turn (i : Nat) (w : Walk) (sharing : Sharing)
  | receive
  | drain
  | close

/-- What has been swept is read off the deeds of the sweep, not off what it reports. -/
def turn (d : Delivery P) (i : Nat) (w : Walk) (sharing : Sharing) : Delivery P :=
  let d' := { d with work := d.work.turn Outlet.finish sharing i w }
  match d.work.sweepers[i]? with
  | none => d'
  | some sweeper =>
    if sweeper.lost then d'
    else
      match sweeper.batch with
      | [] =>
        let deeds := d.work.stack.partDeeds d.work.stack.depth w sharing sweeper.part sweeper.parts
        { d' with swept := d.swept ++ deeds.filterMap Deed.found? }
      | x :: _ =>
        match (Outlet.finish d.work.finisher x).2.outcome with
        | .accepted => { d' with accepted := d.accepted ++ [x] }
        | .refused text => { d' with refused := d.refused ++ [(x, text)] }
        | .panicked => d'

def step (d : Delivery P) : Move P → Delivery P
  | .call st => { d with work := { d.work with stack := d.work.stack.step st } }
  | .join part parts => { d with work := { d.work with sweepers := d.work.sweepers ++ [⟨part, parts, [], false⟩] } }
  | .turn i w sharing => d.turn i w sharing
  | .receive =>
    let (r, finisher) := d.work.finisher.receive
    let received :=
      match r with
      | .item x => d.received ++ [x]
      | _ => d.received
    { d with work := { d.work with finisher }, received }
  | .drain =>
    let (found, finisher) := d.work.finisher.drain
    { d with work := { d.work with finisher }, received := d.received ++ found }
  | .close => { d with work := { d.work with finisher := d.work.finisher.close } }

def run (d : Delivery P) (moves : List (Move P)) : Delivery P := moves.foldl step d

/-! ### Turns -/

variable {d : Delivery P} {q : Queue (Expired P)} {i : Nat}

/-- What a turn of sweeper `i` comes to while the outlet is the queue `q`. -/
inductive Went (q : Queue (Expired P)) (d : Delivery P) (i : Nat) : Delivery P → Prop where
  | idle : Went q d i d
  | swept {sweeper : Sweeper P} {stack : Stack P} {found : List (Expired P)}
      (h : d.work.sweepers[i]? = some sweeper) (hbatch : sweeper.batch = [])
      (hsilent : stack.failures = d.work.stack.failures) :
      Went q d i
        { d with
          work := ⟨stack, .queue q, d.work.sweepers.set i { sweeper with batch := found, lost := false }⟩
          swept := d.swept ++ found }
  | sent {sweeper : Sweeper P} {x : Expired P} {rest : List (Expired P)} {q' : Queue (Expired P)}
      (h : d.work.sweepers[i]? = some sweeper) (hbatch : sweeper.batch = x :: rest) (hsend : q.send x = .ok q') :
      Went q d i
        { d with
          work := ⟨d.work.stack, .queue q', d.work.sweepers.set i { sweeper with batch := rest, lost := false }⟩
          accepted := d.accepted ++ [x] }
  | unsent {sweeper : Sweeper P} {x : Expired P} {rest : List (Expired P)} {e : SendError}
      (h : d.work.sweepers[i]? = some sweeper) (hbatch : sweeper.batch = x :: rest) (hsend : q.send x = .error e) :
      Went q d i
        { d with
          work := ⟨d.work.stack.logs [.handoverFailed x.entry.key (Outlet.refusal x.entry.key e)], .queue q,
            d.work.sweepers.set i { sweeper with batch := rest, lost := false }⟩
          refused := d.refused ++ [(x, Outlet.refusal x.entry.key e)] }

theorem went (hq : d.work.finisher = .queue q) (i : Nat) (w : Walk) (sharing : Sharing) :
    Went q d i (d.turn i w sharing) := by
  unfold turn
  cases h : d.work.sweepers[i]? with
  | none =>
    rw [Underway.turn_of_none Outlet.finish sharing h]
    exact .idle
  | some sweeper =>
    cases hlost : sweeper.lost with
    | true =>
      simp only [hlost, if_true, Underway.turn_of_lost Outlet.finish sharing h hlost]
      exact .idle
    | false =>
      cases hbatch : sweeper.batch with
      | nil =>
        simp only [hlost, hbatch, Bool.false_eq_true, if_false,
          Underway.turn_of_idle Outlet.finish sharing h hlost hbatch, ← Stack.sweepPart_snd]
        rw [hq]
        exact .swept h hbatch (d.work.stack.failures_sweepPart ..)
      | cons x rest =>
        cases hsend : q.send x with
        | ok q' =>
          have hfinish : (Outlet.finish d.work.finisher x).2.outcome = .accepted := by
            simp only [hq, Outlet.finish, hsend]
          simp only [hlost, hbatch, hfinish, Bool.false_eq_true, if_false,
            Underway.turn_of_batch Outlet.finish sharing h hlost hbatch]
          rw [hq, Stack.handOver_of_sent hsend]
          exact .sent h hbatch hsend
        | error e =>
          have hfinish : (Outlet.finish d.work.finisher x).2.outcome = .refused (Outlet.refusal x.entry.key e) := by
            simp only [hq, Outlet.finish, hsend]
          simp only [hlost, hbatch, hfinish, Bool.false_eq_true, if_false,
            Underway.turn_of_batch Outlet.finish sharing h hlost hbatch]
          rw [hq, Stack.handOver_of_unsent hsend]
          exact .unsent h hbatch hsend

/-! ### The balance -/

/-- What holds between any two moves that began with the stack `s` and an empty queue. -/
structure Balanced (s : Stack P) (capacity : Nat) (d : Delivery P) : Prop where
  queue : ∃ q, d.work.finisher = .queue q ∧ q.capacity = capacity ∧ q.items.length ≤ capacity ∧
    (q.receiving = true → d.received ++ q.items = d.accepted)
  steady : ∀ sweeper ∈ d.work.sweepers, sweeper.lost = false
  whereabouts : d.swept.Perm (d.accepted ++ d.refused.map (·.1) ++ d.work.inHand)
  warned : d.work.stack.failures = s.failures ++ d.refused.map fun r => .handoverFailed r.1.entry.key r.2

variable {s : Stack P} {capacity : Nat}

theorem balanced_start (s : Stack P) (capacity : Nat) : (start s capacity).Balanced s capacity where
  queue := ⟨{ capacity }, rfl, rfl, Nat.zero_le capacity, fun _ => rfl⟩
  steady _ h := nomatch h
  whereabouts := .nil
  warned := (List.append_nil _).symm

theorem steady_set {sweepers : List (Sweeper P)} (h : ∀ sweeper ∈ sweepers, sweeper.lost = false)
    {relieved : Sweeper P} (hrelieved : relieved.lost = false) (i : Nat) :
    ∀ sweeper ∈ sweepers.set i relieved, sweeper.lost = false := by
  intro sweeper hs
  rcases List.mem_or_eq_of_mem_set hs with hs | rfl
  · exact h sweeper hs
  · exact hrelieved

theorem perm_append_insert {α : Type} (first last new : List α) :
    (first ++ last ++ new).Perm (first ++ new ++ last) := by
  rw [List.append_assoc, List.append_assoc]
  exact List.perm_append_comm.append_left first

theorem Balanced.turn (h : d.Balanced s capacity) (i : Nat) (w : Walk) (sharing : Sharing) :
    (d.turn i w sharing).Balanced s capacity := by
  obtain ⟨q, hq, hcapacity, hlength, hkept⟩ := h.queue
  have hwent := went hq i w sharing
  generalize d.turn i w sharing = d' at hwent ⊢
  cases hwent with
  | idle => exact h
  | @swept sweeper stack found hi hbatch hsilent =>
    let laden : Sweeper P := { sweeper with batch := found, lost := false }
    have hhand : ((d.work.sweepers.set i laden).flatMap (·.batch)).Perm (d.work.inHand ++ found) :=
      Underway.perm_batches_of_swept hi hbatch rfl
    refine ⟨⟨q, rfl, hcapacity, hlength, hkept⟩, steady_set h.steady rfl i, ?_, hsilent.trans h.warned⟩
    refine (h.whereabouts.append_right found).trans ?_
    rw [List.append_assoc]
    exact hhand.symm.append_left _
  | @sent sweeper x rest q' hi hbatch hsend =>
    obtain ⟨hreceiving, -, rfl⟩ := Queue.send_eq_ok_iff.1 hsend
    let relieved : Sweeper P := { sweeper with batch := rest, lost := false }
    have hhand : d.work.inHand.Perm ((d.work.sweepers.set i relieved).flatMap (·.batch) ++ [x]) :=
      Underway.perm_batches_of_handed hi hbatch rfl
    refine ⟨⟨_, rfl, hcapacity, ?_, fun _ => ?_⟩, steady_set h.steady rfl i, ?_, h.warned⟩
    · exact hcapacity ▸ Queue.length_le_capacity_of_send hsend
    · rw [← List.append_assoc, hkept hreceiving]
    · refine h.whereabouts.trans ((hhand.append_left _).trans ?_)
      rw [← List.append_assoc, List.append_assoc d.accepted, List.append_assoc (d.accepted ++ [x])]
      exact perm_append_insert d.accepted _ [x]
  | @unsent sweeper x rest e hi hbatch hsend =>
    let relieved : Sweeper P := { sweeper with batch := rest, lost := false }
    have hhand : d.work.inHand.Perm ((d.work.sweepers.set i relieved).flatMap (·.batch) ++ [x]) :=
      Underway.perm_batches_of_handed hi hbatch rfl
    refine ⟨⟨q, rfl, hcapacity, hlength, hkept⟩, steady_set h.steady rfl i, ?_, ?_⟩
    · refine h.whereabouts.trans ((hhand.append_left _).trans ?_)
      rw [← List.append_assoc, List.map_append, ← List.append_assoc d.accepted]
      exact perm_append_insert (d.accepted ++ d.refused.map (·.1)) _ [x]
    · rw [Stack.failures_logs, h.warned, List.map_append, ← List.append_assoc]
      rfl

theorem Balanced.step (h : d.Balanced s capacity) (m : Move P) : (d.step m).Balanced s capacity := by
  obtain ⟨q, hq, hcapacity, hlength, hkept⟩ := h.queue
  cases m with
  | call st => exact ⟨h.queue, h.steady, h.whereabouts, (d.work.stack.failures_step st).trans h.warned⟩
  | join part parts =>
    refine ⟨h.queue, fun sweeper hs => ?_, ?_, h.warned⟩
    · rcases List.mem_append.1 hs with hs | hs
      · exact h.steady sweeper hs
      · rw [List.mem_singleton.1 hs]
    · have hhand : (d.step (.join part parts)).work.inHand = d.work.inHand := by simp [Delivery.step, Underway.inHand]
      rw [hhand]
      exact h.whereabouts
  | turn i w sharing => exact h.turn i w sharing
  | receive =>
    obtain ⟨capacity', items, receiving⟩ := q
    simp only [Delivery.step, hq, Outlet.receive]
    cases receiving with
    | false => exact ⟨⟨_, rfl, hcapacity, hlength, hkept⟩, h.steady, h.whereabouts, h.warned⟩
    | true =>
      cases items with
      | nil => exact ⟨⟨_, rfl, hcapacity, hlength, hkept⟩, h.steady, h.whereabouts, h.warned⟩
      | cons x rest =>
        refine ⟨⟨_, rfl, hcapacity, Nat.le_of_succ_le hlength, fun _ => ?_⟩, h.steady, h.whereabouts, h.warned⟩
        exact (List.append_cons ..).symm.trans (hkept rfl)
  | drain =>
    simp only [Delivery.step, hq, Outlet.drain, Queue.drain]
    refine ⟨⟨_, rfl, hcapacity, Nat.zero_le capacity, fun hreceiving => ?_⟩, h.steady, h.whereabouts, h.warned⟩
    rw [List.append_nil, hkept hreceiving]
  | close =>
    simp only [Delivery.step, hq, Outlet.close, Queue.close]
    exact ⟨⟨_, rfl, hcapacity, Nat.zero_le capacity, nofun⟩, h.steady, h.whereabouts, h.warned⟩

theorem Balanced.run (h : d.Balanced s capacity) (moves : List (Move P)) : (d.run moves).Balanced s capacity :=
  List.foldlRecOn moves Delivery.step h fun _ h m _ => h.step m

theorem Balanced.length_swept (h : d.Balanced s capacity) :
    d.swept.length + s.failures.length =
      d.accepted.length + d.work.stack.failures.length + d.work.inHand.length := by
  have hlength := h.whereabouts.length_eq
  have hwarned := congrArg List.length h.warned
  simp only [List.length_append, List.length_map] at hlength hwarned
  omega

/-! ### Queues that are closed -/

def Closed (d : Delivery P) : Prop := ∃ q, d.work.finisher = .queue q ∧ q.receiving = false

theorem Closed.step (h : d.Closed) (m : Move P) : (d.step m).Closed ∧ (d.step m).accepted = d.accepted := by
  obtain ⟨q, hq, hreceiving⟩ := h
  cases m with
  | call | join => exact ⟨⟨q, hq, hreceiving⟩, rfl⟩
  | turn i w sharing =>
    have hwent := went hq i w sharing
    rw [Delivery.step]
    generalize d.turn i w sharing = d' at hwent ⊢
    cases hwent with
    | idle => exact ⟨⟨q, hq, hreceiving⟩, rfl⟩
    | swept | unsent => exact ⟨⟨q, rfl, hreceiving⟩, rfl⟩
    | sent hi hbatch hsend =>
      rw [(Queue.send_eq_ok_iff.1 hsend).1] at hreceiving
      cases hreceiving
  | receive =>
    simp only [Delivery.step, hq, Outlet.receive, Queue.receive, hreceiving]
    exact ⟨⟨q, rfl, hreceiving⟩, trivial⟩
  | drain =>
    simp only [Delivery.step, hq, Outlet.drain, Queue.drain]
    exact ⟨⟨_, rfl, hreceiving⟩, trivial⟩
  | close =>
    simp only [Delivery.step, hq, Outlet.close, Queue.close]
    exact ⟨⟨_, rfl, rfl⟩, trivial⟩

theorem Closed.run (h : d.Closed) (moves : List (Move P)) :
    (d.run moves).Closed ∧ (d.run moves).accepted = d.accepted := by
  induction moves generalizing d with
  | nil => exact ⟨h, rfl⟩
  | cons m moves ih =>
    obtain ⟨hclosed, haccepted⟩ := h.step m
    obtain ⟨hend, hsame⟩ := ih hclosed
    exact ⟨hend, hsame.trans haccepted⟩

theorem Closed.finish (h : d.Closed) (x : Expired P) :
    Outlet.finish d.work.finisher x =
      (d.work.finisher, { outcome := .refused (Outlet.refusal x.entry.key .closed) }) := by
  obtain ⟨q, hq, hreceiving⟩ := h
  simp only [hq, Outlet.finish, Queue.send_eq_closed_iff.2 hreceiving]

theorem Balanced.closed (h : d.Balanced s capacity) : (d.step .close).Closed := by
  obtain ⟨q, hq, -⟩ := h.queue
  simp only [Delivery.step, hq, Outlet.close]
  exact ⟨_, rfl, rfl⟩

/-! ### Turns of one sweeper -/

theorem work_turn (d : Delivery P) (i : Nat) (w : Walk) (sharing : Sharing) :
    (d.turn i w sharing).work = d.work.turn Outlet.finish sharing i w := by
  unfold turn
  dsimp only
  repeat' split
  all_goals rfl

theorem work_run_turns (d : Delivery P) (i : Nat) (w : Walk) (sharing : Sharing) (n : Nat) :
    (d.run (List.replicate n (.turn i w sharing))).work =
      d.work.run Outlet.finish sharing (List.replicate n (i, w)) := by
  induction n generalizing d with
  | zero => rfl
  | succ n ih =>
    rw [List.replicate_succ, List.replicate_succ, run, List.foldl_cons, Underway.run, List.foldl_cons, step,
      ← work_turn]
    exact ih (d.turn i w sharing)

/-- What sweeper `i` has not handed over yet. -/
def inHandOf (d : Delivery P) (i : Nat) : List (Expired P) := (d.work.sweepers[i]?.map (·.batch)).getD []

theorem Balanced.inHandOf_run (h : d.Balanced s capacity) (i : Nat) (w : Walk) (sharing : Sharing) :
    (d.run (List.replicate (d.inHandOf i).length (.turn i w sharing))).inHandOf i = [] := by
  cases hi : d.work.sweepers[i]? with
  | none =>
    have hnone : d.inHandOf i = [] := by rw [inHandOf, hi]; rfl
    rw [hnone]
    exact hnone
  | some sweeper =>
    have hbatch : d.inHandOf i = sweeper.batch := by rw [inHandOf, hi]; rfl
    have hlast := Underway.run_batch Outlet.finish sharing hi (h.steady sweeper (List.mem_of_getElem? hi)) w
    rw [inHandOf, work_run_turns, hbatch, hlast, List.getElem?_set_self (List.getElem?_eq_some_iff.1 hi).1]
    rfl

/-! ### Services -/

def Move.isSweeping : Move P → Bool
  | .join _ _ | .turn _ _ _ => true
  | _ => false

/-- Moves of sweepers alone lead to where the service is, and leave in hand what was in hand. -/
def Leads (d : Delivery P) (v : Service (Outlet P) P) : Prop :=
  ∃ moves, (∀ m ∈ moves, Move.isSweeping m = true) ∧ (d.run moves).work.stack = v.stack ∧
    (d.run moves).work.finisher = v.finisher ∧ (d.run moves).work.inHand = d.work.inHand

def service (d : Delivery P) (crew : Crew) : Service (Outlet P) P := ⟨d.work.stack, d.work.finisher, crew⟩

theorem leads_of_joined (d : Delivery P) {part parts : Nat} {w : Walk} {sharing : Sharing} {swept : Stack P}
    {found : List (Expired P)}
    (hsweep : d.work.stack.sweepPart d.work.stack.depth w sharing part parts = (swept, found))
    {finisher : Outlet P} {stack : Stack P} {lasted : Bool}
    (hhanded : swept.handOver Outlet.finish d.work.finisher found = (finisher, stack, lasted)) (crew : Crew) :
    d.Leads ⟨stack, finisher, crew⟩ := by
  have hround := Underway.run_joined Outlet.finish sharing d.work part parts hsweep hhanded
  let turns : List (Move P) := List.replicate (found.length + 1) (.turn d.work.sweepers.length w sharing)
  have hwork : (d.run (.join part parts :: turns)).work =
      ⟨stack, finisher, d.work.sweepers ++ [⟨part, parts, [], !lasted⟩]⟩ :=
    (work_run_turns (d.step (.join part parts)) _ w sharing _).trans hround
  refine ⟨.join part parts :: turns, fun m hm => ?_, congrArg (·.stack) hwork, congrArg (·.finisher) hwork, ?_⟩
  · rcases List.mem_cons.1 hm with rfl | hm
    · rfl
    · rw [List.eq_of_mem_replicate hm]
      rfl
  · rw [hwork]
    simp [Underway.inHand]

theorem leads_sweepOnce (d : Delivery P) (crew : Crew) (w : Walk) :
    d.Leads ((d.service crew).sweepOnce Outlet.finish w).1 := by
  rcases hsweep : d.work.stack.sweepPart d.work.stack.depth w .byName 0 1 with ⟨swept, found⟩
  rcases hhanded : swept.handOver Outlet.finish d.work.finisher found with ⟨finisher, stack, lasted⟩
  have hleads := d.leads_of_joined hsweep hhanded crew
  rw [Stack.sweepPart_one] at hsweep
  simp only [Service.sweepOnce, service, hsweep, hhanded]
  exact hleads

theorem leads_round (d : Delivery P) (crew : Crew) (w : Walk) (sharing : Sharing) (i : Nat) :
    d.Leads ((d.service crew).round Outlet.finish w sharing i) := by
  have hidle : d.Leads (d.service crew) := ⟨[], fun m hm => absurd hm List.not_mem_nil, rfl, rfl, rfl⟩
  unfold Service.round
  split
  · rcases hsweep : d.work.stack.sweepPart d.work.stack.depth w sharing i crew.size with ⟨swept, found⟩
    rcases hhanded : swept.handOver Outlet.finish d.work.finisher found with ⟨finisher, stack, lasted⟩
    simp only [service, hsweep, hhanded]
    exact d.leads_of_joined hsweep hhanded _
  · exact hidle

/-! ### Where every track is -/

theorem finish_queue (q : Queue (Expired P)) (x : Expired P) :
    (∃ q', Outlet.finish (.queue q) x = (.queue q', { outcome := .accepted }) ∧ q'.items = q.items ++ [x]) ∨
      ∃ e, Outlet.finish (.queue q) x = (.queue q, { outcome := .refused (Outlet.refusal x.entry.key e) }) := by
  cases hsend : q.send x with
  | ok q' =>
    obtain ⟨-, -, rfl⟩ := Queue.send_eq_ok_iff.1 hsend
    exact .inl ⟨{ q with items := q.items ++ [x] }, by simp only [Outlet.finish, hsend], rfl⟩
  | error e => exact .inr ⟨e, by simp only [Outlet.finish, hsend]⟩

/-- Whatever the sweepers of a stack have taken out of it has been accepted by the queue, or there is one warning
that names it, or it is in the hands of a sweeper that is rid of it after as many turns of its own. Rounds of a
crew and sweeps of all cameras that are made as a whole leave nothing more in hand. The queue keeps to its capacity,
and as long as it has a receiver, what has been received from it and what is in it are what it has accepted, in this
order. A refusal leaves it as it was, and once it is closed it accepts nothing any more. -/
theorem swept_accounted_for (s : Stack P) (capacity : Nat) (moves : List (Move P)) :
    let d := (start s capacity).run moves
    d.Balanced s capacity ∧
      d.swept.length + s.failures.length =
        d.accepted.length + d.work.stack.failures.length + d.work.inHand.length ∧
      (∀ i w sharing, (d.run (List.replicate (d.inHandOf i).length (.turn i w sharing))).inHandOf i = []) ∧
      (∀ crew w, d.Leads ((d.service crew).sweepOnce Outlet.finish w).1 ∧
        ∀ sharing i, d.Leads ((d.service crew).round Outlet.finish w sharing i)) ∧
      (∀ (q : Queue (Expired P)) (x : Expired P),
        (∃ q', Outlet.finish (.queue q) x = (.queue q', { outcome := .accepted }) ∧ q'.items = q.items ++ [x]) ∨
          ∃ e, Outlet.finish (.queue q) x = (.queue q, { outcome := .refused (Outlet.refusal x.entry.key e) })) ∧
      ∀ more, let closed := (d.step .close).run more
        closed.accepted = d.accepted ∧
          ∀ x, Outlet.finish closed.work.finisher x =
            (closed.work.finisher, { outcome := .refused (Outlet.refusal x.entry.key .closed) }) := by
  intro d
  have hd : d.Balanced s capacity := (balanced_start s capacity).run moves
  refine ⟨hd, hd.length_swept, hd.inHandOf_run, fun crew w => ?_, finish_queue, fun more => ?_⟩
  · exact ⟨d.leads_sweepOnce crew w, d.leads_round crew w⟩
  obtain ⟨hclosed, haccepted⟩ := hd.closed.run more
  exact ⟨haccepted, hclosed.finish⟩

/-- Three tracks expire, and while they are handed over the queue is full, has room again and is closed. -/
def cut : Delivery String :=
  let s := (Stack.ofPolicies [⟨.ofSeconds 3, .ofSeconds 30⟩]).run
    [.plain 1 (.register ⟨"north", 1, "a"⟩), .plain 1 (.register ⟨"north", 2, "b"⟩),
      .plain 1 (.register ⟨"north", 3, "c"⟩), .plain 1 (.register ⟨"north", 4, "d"⟩),
      .plain 1 (.setClock (.mk 5000000000))]
  let turn : Move String := .turn 0 .ascending .byName
  (start s 1).run [.join 0 1, turn, turn, turn, .receive, turn, .close, turn]

example : cut.received.map (·.entry.payload) = ["a"] ∧ cut.accepted.map (·.entry.payload) = ["a", "c"] ∧
    cut.work.stack.failures.map Event.line =
      ["WARN Failed to finish track 2 on camera north: finished-track queue full, dropped track 2 on camera north",
        "WARN Failed to finish track 4 on camera north: finished-track queue closed"] := by decide +kernel

end Delivery

end LiveTracks
