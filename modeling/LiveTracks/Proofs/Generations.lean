import LiveTracks.Finisher.Outlet
import LiveTracks.Proofs.CallDeeds
import LiveTracks.Proofs.Lifetimes
import LiveTracks.Settings
import Mathlib.Data.List.Nodup

/-!
# Generations of a crew

A service is started and stopped in any order and any number of times, and in between its workers sweep, some of them
until the finisher panics, while others sweep everything at once or make calls. All that starts and stops have to go by
is whether the crew is running and who is in it; what they make of it is compared with a record of the orders
themselves (`Chronicle`): who has panicked since the last start, and what starts and stops have logged. The two agree
after every order (`Chronicle.Agrees.obey`), and from that follows what a caller can rely on (`lifecycle`).
-/

namespace LiveTracks

variable {σ P : Type}

/-- What can be asked of a service, and what others can do to its stack meanwhile. -/
inductive Order (P : Type) where
  | start
  | stop
  /-- The service is given up. -/
  | release
  /-- Worker `i` wakes up. -/
  | round (i : Nat) (w : Walk) (sharing : Sharing)
  | sweepOnce (w : Walk)
  | call (st : Step P)

/-- The orders that end a generation. -/
def Order.Ends : Order P → Prop
  | .stop | .release => True
  | _ => False

namespace Service

def obey (v : Service σ P) (f : Finisher σ P) : Order P → Service σ P
  | .start => v.start
  | .stop | .release => v.stop
  | .round i w sharing => v.round f w sharing i
  | .sweepOnce w => (v.sweepOnce f w).1
  | .call st => { v with stack := v.stack.step st }

/-- Sweeper `i` would not get through with what it finds now. -/
def breaksOff (v : Service σ P) (f : Finisher σ P) (i : Nat) (w : Walk) (sharing : Sharing) : Bool :=
  let (swept, found) := v.stack.sweepPart v.stack.depth w sharing i v.crew.size
  !(swept.handOver f v.finisher found).2.2

end Service

/-- A service with a record beside it that nothing that runs reads: the workers of the latest generation that have
panicked, and what starts and stops have logged so far. -/
structure Chronicle (σ P : Type) where
  service : Service σ P
  fallen : List Nat := []
  said : List Event := []

namespace Chronicle

/-- What has come into the log. -/
def news (before after : Service σ P) : List Event := after.stack.log.drop before.stack.log.length

def obey (f : Finisher σ P) (d : Chronicle σ P) (o : Order P) : Chronicle σ P :=
  let v := d.service.obey f o
  match o with
  | .start => ⟨v, if d.service.crew.isRunning then d.fallen else [], d.said ++ news d.service v⟩
  | .stop | .release => ⟨v, d.fallen, d.said ++ news d.service v⟩
  | .round i w sharing =>
    if d.service.crew.isRunning ∧ i < d.service.crew.size ∧ i ∉ d.fallen ∧ d.service.breaksOff f i w sharing then
      ⟨v, d.fallen ++ [i], d.said⟩
    else ⟨v, d.fallen, d.said⟩
  | .sweepOnce _ | .call _ => ⟨v, d.fallen, d.said⟩

def run (f : Finisher σ P) (d : Chronicle σ P) (orders : List (Order P)) : Chronicle σ P := orders.foldl (obey f) d

theorem run_concat (f : Finisher σ P) (d : Chronicle σ P) (orders : List (Order P)) (o : Order P) :
    d.run f (orders ++ [o]) = (d.run f orders).obey f o := List.foldl_concat ..

theorem service_obey (f : Finisher σ P) (d : Chronicle σ P) (o : Order P) :
    (d.obey f o).service = d.service.obey f o := by
  cases o with
  | round i w sharing =>
    simp only [obey]
    split <;> rfl
  | _ => rfl

theorem service_run (f : Finisher σ P) (d : Chronicle σ P) (orders : List (Order P)) :
    (d.run f orders).service = orders.foldl (fun v o => v.obey f o) d.service := by
  induction orders generalizing d with
  | nil => rfl
  | cons o orders ih => exact (ih (d.obey f o)).trans (by rw [service_obey]; rfl)

end Chronicle

/-! ### Crews -/

namespace Crew

/-- The workers of a crew of which these have panicked. -/
def roster (size : Nat) (fallen : List Nat) : List Worker :=
  (List.range size).map fun i => if i ∈ fallen then .panicked else .working

theorem length_roster (size : Nat) (fallen : List Nat) : (roster size fallen).length = size := by
  rw [roster, List.length_map, List.length_range]

theorem roster_nil (size : Nat) : roster size [] = List.replicate size .working := by
  simp [roster, List.map_const']

theorem getElem?_roster (size : Nat) (fallen : List Nat) (i : Nat) :
    (roster size fallen)[i]? = if i < size then some (if i ∈ fallen then .panicked else .working) else none := by
  by_cases h : i < size
  · rw [if_pos h, roster, List.getElem?_map, List.getElem?_range h]
    rfl
  · rw [if_neg h]
    exact List.getElem?_eq_none (by rw [length_roster]; omega)

theorem set_roster (size : Nat) (fallen : List Nat) (i : Nat) :
    (roster size fallen).set i .panicked = roster size (fallen ++ [i]) := by
  refine List.ext_getElem? fun j => ?_
  rw [List.getElem?_set, length_roster, getElem?_roster, getElem?_roster]
  by_cases hij : i = j
  · subst hij
    simp
  · have hji : j ≠ i := fun h => hij h.symm
    simp [hij, hji]

/-- Each worker that has panicked is one line of a farewell. -/
theorem farewell_roster {size : Nat} {fallen : List Nat} (hlt : ∀ i ∈ fallen, i < size) (hnodup : fallen.Nodup) :
    (roster size fallen).flatMap farewell = List.replicate fallen.length .workerPanicked := by
  have hfallen : ((List.range size).filter (· ∈ fallen)).Perm fallen := by
    refine (List.perm_ext_iff_of_nodup (List.nodup_range.filter _) hnodup).2 fun i => ?_
    rw [List.mem_filter, List.mem_range, decide_eq_true_eq]
    exact ⟨fun h => h.2, fun h => ⟨hlt i h, h⟩⟩
  have hlines (l : List Nat) : (l.flatMap fun i => farewell (if i ∈ fallen then .panicked else .working)) =
      List.replicate (l.filter (· ∈ fallen)).length .workerPanicked := by
    induction l with
    | nil => rfl
    | cons i l ih =>
      rw [List.flatMap_cons, ih]
      by_cases h : i ∈ fallen
      · rw [if_pos h, List.filter_cons_of_pos (by simpa using h), List.length_cons, List.replicate_succ]
        rfl
      · rw [if_neg h, List.filter_cons_of_neg (by simpa using h)]
        rfl
  rw [roster, List.flatMap_map, hlines, hfallen.length_eq]

end Crew

/-! ### Single orders -/

namespace Service

variable {v : Service σ P}

theorem start_of_running (h : v.crew.isRunning = true) : v.start = v := by
  simp only [start, Crew.start, h, if_true, logs, Stack.logs_nil]

theorem stop_of_stopped (h : v.crew.isRunning = false) : v.stop = v := by
  simp only [stop, Crew.stop, h, Bool.false_eq_true, if_false, logs, Stack.logs_nil]

theorem crew_start_of_stopped (h : v.crew.isRunning = false) :
    v.start.crew =
      { v.crew with holding := true, workers := v.crew.workers ++ List.replicate v.crew.size Worker.working } := by
  simp only [start, Crew.start, h, Bool.false_eq_true, if_false, logs]

theorem log_start_of_stopped (h : v.crew.isRunning = false) :
    v.start.stack.log = v.stack.log ++ [Event.started v.crew.size v.crew.interval v.policy] := by
  simp only [start, Crew.start, h, Bool.false_eq_true, if_false, logs, Stack.logs]

theorem crew_stop_of_running (h : v.crew.isRunning = true) :
    v.stop.crew = { v.crew with holding := false, workers := [] } := by
  simp only [stop, Crew.stop, h, if_true, logs]

theorem log_stop_of_running (h : v.crew.isRunning = true) :
    v.stop.stack.log = v.stack.log ++ (v.crew.workers.flatMap Crew.farewell ++ [Event.stopped]) := by
  simp only [stop, Crew.stop, h, if_true, logs, Stack.logs]

theorem isRunning_start (v : Service σ P) : v.start.crew.isRunning = true := by
  cases h : v.crew.isRunning with
  | true => rw [start_of_running h, h]
  | false => rw [crew_start_of_stopped h]; rfl

theorem isRunning_stop (v : Service σ P) : v.stop.crew.isRunning = false := by
  cases h : v.crew.isRunning with
  | true => rw [crew_stop_of_running h]; rfl
  | false => rw [stop_of_stopped h, h]

theorem round_of_working {i : Nat} (h : v.crew.workers[i]? = some .working) (f : Finisher σ P) (w : Walk)
    (sharing : Sharing) :
    (v.round f w sharing i).crew = if v.breaksOff f i w sharing then v.crew.lose i else v.crew := by
  simp only [round, h, breaksOff, Bool.not_eq_true', ← Bool.not_eq_true, ite_not]

theorem round_of_not_working {i : Nat} (h : v.crew.workers[i]? ≠ some .working) (f : Finisher σ P) (w : Walk)
    (sharing : Sharing) : v.round f w sharing i = v := by
  rw [round]
  split
  · rename_i hworking
    exact absurd hworking h
  · rfl

theorem policy_of_after {v v' : Service σ P} {deeds : List (Deed P)} (h : v'.stack = v.stack.after deeds) :
    v'.policy = v.policy := by
  have hlayers (s : Stack P) : (s.layer? s.depth).map (·.policy) = (s.layers.map (·.policy)).getLast? := by
    rw [List.getLast?_eq_getElem?, List.length_map, List.getElem?_map, Stack.depth]
    cases hlength : s.layers.length with
    | zero => rw [List.getElem?_eq_none (by omega)]; rfl
    | succ n => rfl
  rw [policy, policy, h, hlayers, hlayers, Stack.map_policy_after]

theorem policy_obey (v : Service σ P) (f : Finisher σ P) (o : Order P) : (v.obey f o).policy = v.policy := by
  cases o with
  | start => exact policy_of_after v.start_eq_after
  | stop => exact policy_of_after v.stop_eq_after
  | release => exact policy_of_after v.stop_eq_after
  | round i w sharing => exact policy_of_after (v.round_eq_after f w sharing i)
  | sweepOnce w => exact policy_of_after (v.sweepOnce_eq_after f w)
  | call st => exact policy_of_after (v.stack.call_eq_after st.walk st.sharing st.number st.call)

end Service

/-! ### What every order keeps -/

/-- The events of starting and stopping. -/
def Event.isTurn : Event → Bool
  | .started _ _ _ | .stopped => true
  | _ => false

/-- What is logged of the turn of a crew that it takes after `n` others. -/
def Crew.turn (c : Crew) (policy : Policy) (n : Nat) : Event :=
  if n % 2 = 0 then .started c.size c.interval policy else .stopped

def Event.isOfCrew : Event → Bool
  | .started _ _ _ | .stopped | .workerPanicked => true
  | _ => false

theorem Event.alien_isOfCrew : Event.Alien Event.isOfCrew :=
  ⟨fun _ => rfl, fun _ _ => rfl, fun _ _ => rfl, fun _ _ => rfl⟩

/-- A start logs events of a crew only. -/
theorem Service.exists_log_start (v : Service σ P) :
    ∃ more, v.start.stack.log = v.stack.log ++ more ∧ more.filter Event.isOfCrew = more := by
  cases hrunning : v.crew.isRunning with
  | true => exact ⟨[], by rw [start_of_running hrunning, List.append_nil], rfl⟩
  | false => exact ⟨_, log_start_of_stopped hrunning, rfl⟩

theorem Service.exists_log_stop (v : Service σ P) :
    ∃ more, v.stop.stack.log = v.stack.log ++ more ∧ more.filter Event.isOfCrew = more := by
  cases hrunning : v.crew.isRunning with
  | false => exact ⟨[], by rw [stop_of_stopped hrunning, List.append_nil], rfl⟩
  | true =>
    refine ⟨_, log_stop_of_running hrunning, List.filter_eq_self.2 fun e he => ?_⟩
    obtain he | he := List.mem_append.1 he
    · obtain ⟨worker, -, he⟩ := List.mem_flatMap.1 he
      cases worker with
      | working => cases he
      | panicked => rw [List.mem_singleton.1 he]; rfl
    · rw [List.mem_singleton.1 he]
      rfl

/-- Logs nothing by itself that would be taken for an event of a crew. -/
def Discreet (f : Finisher σ P) : Prop := ∀ state x, ∀ e ∈ (f state x).2.events, e.isOfCrew = false

namespace Chronicle

/-- What a service and the record beside it have in common. `c` is the crew as it was taken on first. -/
structure Agrees (c : Crew) (policy : Policy) (d : Chronicle σ P) : Prop where
  size : d.service.crew.size = c.size
  interval : d.service.crew.interval = c.interval
  policy_eq : d.service.policy = policy
  workers : d.service.crew.workers = if d.service.crew.isRunning then Crew.roster c.size d.fallen else []
  fallen_lt : ∀ i ∈ d.fallen, i < c.size
  fallen_nodup : d.fallen.Nodup
  turns : ∃ n, d.said.filter Event.isTurn = (List.range n).map (c.turn policy) ∧
    (d.service.crew.isRunning = true ↔ n % 2 = 1)

variable {c : Crew} {policy : Policy} {d : Chronicle σ P}

theorem news_of_log {before after : Service σ P} {events : List Event}
    (h : after.stack.log = before.stack.log ++ events) : news before after = events := by
  rw [news, h, List.drop_left]

theorem Agrees.workers_nil (h : d.Agrees c policy) (hrunning : d.service.crew.isRunning = false) :
    d.service.crew.workers = [] := by
  rw [h.workers, hrunning, if_neg Bool.false_ne_true]

theorem Agrees.farewell (h : d.Agrees c policy) (hrunning : d.service.crew.isRunning = true) :
    d.service.crew.workers.flatMap Crew.farewell = List.replicate d.fallen.length .workerPanicked := by
  rw [h.workers, hrunning, if_pos rfl, Crew.farewell_roster h.fallen_lt h.fallen_nodup]

theorem Agrees.workers_stop (h : d.Agrees c policy) : d.service.stop.crew.workers = [] := by
  cases hrunning : d.service.crew.isRunning with
  | true => rw [Service.crew_stop_of_running hrunning]
  | false => rw [Service.stop_of_stopped hrunning, h.workers_nil hrunning]

theorem Agrees.start (h : d.Agrees c policy) (f : Finisher σ P) : (d.obey f .start).Agrees c policy := by
  cases hrunning : d.service.crew.isRunning with
  | true =>
    have hsame : d.obey f .start = d := by
      simp only [Chronicle.obey, Service.obey, Service.start_of_running hrunning, hrunning, if_true, news,
        List.drop_length, List.append_nil]
    rw [hsame]
    exact h
  | false =>
    obtain ⟨n, hn, hodd⟩ := h.turns
    have heven : n % 2 = 0 := by
      rw [hrunning] at hodd
      have := mt hodd.2 Bool.false_ne_true
      omega
    have hcrew := Service.crew_start_of_stopped hrunning
    have hnews := news_of_log (Service.log_start_of_stopped hrunning)
    rw [h.size, h.interval, h.policy_eq] at hnews
    simp only [Chronicle.obey, Service.obey, hrunning, hnews, Bool.false_eq_true, if_false]
    refine ⟨?_, ?_, (Service.policy_obey d.service f .start).trans h.policy_eq, ?_, nofun, List.nodup_nil, n + 1, ?_,
      ?_⟩
    · rw [hcrew]
      exact h.size
    · rw [hcrew]
      exact h.interval
    · rw [Service.isRunning_start, if_pos rfl, hcrew, h.workers_nil hrunning, h.size, Crew.roster_nil]
      rfl
    · rw [List.filter_append, hn, List.range_succ, List.map_append, List.map_singleton, Crew.turn, if_pos heven]
      rfl
    · rw [Service.isRunning_start]
      exact iff_of_true rfl (by omega)

theorem Agrees.stop (h : d.Agrees c policy) (f : Finisher σ P) : (d.obey f .stop).Agrees c policy := by
  cases hrunning : d.service.crew.isRunning with
  | false =>
    have hsame : d.obey f .stop = d := by
      simp only [Chronicle.obey, Service.obey, Service.stop_of_stopped hrunning, news, List.drop_length,
        List.append_nil]
    rw [hsame]
    exact h
  | true =>
    obtain ⟨n, hn, hodd⟩ := h.turns
    have hone : n % 2 = 1 := hodd.1 hrunning
    have hcrew := Service.crew_stop_of_running hrunning
    have hnews := news_of_log (Service.log_stop_of_running hrunning)
    rw [h.farewell hrunning] at hnews
    simp only [Chronicle.obey, Service.obey, hnews]
    refine ⟨?_, ?_, (Service.policy_obey d.service f .stop).trans h.policy_eq, ?_, h.fallen_lt, h.fallen_nodup, n + 1,
      ?_, ?_⟩
    · rw [hcrew]
      exact h.size
    · rw [hcrew]
      exact h.interval
    · rw [Service.isRunning_stop, if_neg Bool.false_ne_true, hcrew]
    · have hlines : (List.replicate d.fallen.length Event.workerPanicked).filter Event.isTurn = [] :=
        List.filter_eq_nil_iff.2 fun e he => by rw [List.eq_of_mem_replicate he]; exact Bool.false_ne_true
      rw [List.filter_append, List.filter_append, hlines, hn, List.range_succ, List.map_append, List.map_singleton,
        Crew.turn, if_neg (by omega)]
      rfl
    · rw [Service.isRunning_stop]
      exact iff_of_false Bool.false_ne_true (by omega)

theorem Agrees.getElem?_workers (h : d.Agrees c policy) (i : Nat) :
    d.service.crew.workers[i]? = some .working ↔
      d.service.crew.isRunning = true ∧ i < d.service.crew.size ∧ i ∉ d.fallen := by
  rw [h.workers, h.size]
  cases d.service.crew.isRunning with
  | false => simp
  | true =>
    rw [if_pos rfl, Crew.getElem?_roster]
    split_ifs with hlt hfallen <;> simp [*]

/-- What leaves the crew and the policy as they are leaves everything as it is. -/
theorem Agrees.of_same (h : d.Agrees c policy) {v : Service σ P} (hcrew : v.crew = d.service.crew)
    (hpolicy : v.policy = d.service.policy) : (Chronicle.mk v d.fallen d.said).Agrees c policy := by
  constructor
  · rw [hcrew]
    exact h.size
  · rw [hcrew]
    exact h.interval
  · exact hpolicy.trans h.policy_eq
  · rw [hcrew]
    exact h.workers
  · exact h.fallen_lt
  · exact h.fallen_nodup
  · rw [hcrew]
    exact h.turns

theorem Agrees.round (h : d.Agrees c policy) (f : Finisher σ P) (i : Nat) (w : Walk) (sharing : Sharing) :
    (d.obey f (.round i w sharing)).Agrees c policy := by
  have hpolicy := Service.policy_obey d.service f (.round i w sharing)
  simp only [Chronicle.obey, Service.obey] at hpolicy ⊢
  by_cases hworking : d.service.crew.workers[i]? = some .working
  · have hcrew := Service.round_of_working hworking f w sharing
    obtain ⟨hrunning, hlt, hnew⟩ := (h.getElem?_workers i).1 hworking
    cases hbreaks : d.service.breaksOff f i w sharing with
    | false =>
      rw [hbreaks, if_neg Bool.false_ne_true] at hcrew
      rw [if_neg fun hall => Bool.false_ne_true hall.2.2.2]
      exact h.of_same hcrew hpolicy
    | true =>
      rw [hbreaks, if_pos rfl] at hcrew
      rw [if_pos ⟨hrunning, hlt, hnew, rfl⟩]
      refine ⟨?_, ?_, hpolicy.trans h.policy_eq, ?_, fun j hj => ?_, ?_, ?_⟩
      · rw [hcrew]
        exact h.size
      · rw [hcrew]
        exact h.interval
      · have hworkers := h.workers
        rw [hrunning, if_pos rfl] at hworkers
        rw [hcrew, Crew.lose, hworkers, Crew.set_roster]
        exact (if_pos hrunning).symm
      · obtain hj | hj := List.mem_append.1 hj
        · exact h.fallen_lt j hj
        · rw [List.mem_singleton.1 hj, ← h.size]
          exact hlt
      · refine List.nodup_append.2 ⟨h.fallen_nodup, List.nodup_singleton i, fun a ha b hb hab => hnew ?_⟩
        rwa [← List.mem_singleton.1 hb, ← hab]
      · rw [hcrew]
        exact h.turns
  · rw [Service.round_of_not_working hworking f w sharing, if_neg fun hall => hworking
      ((h.getElem?_workers i).2 ⟨hall.1, hall.2.1, hall.2.2.1⟩)]
    exact h

theorem Agrees.obey (h : d.Agrees c policy) (f : Finisher σ P) (o : Order P) : (d.obey f o).Agrees c policy := by
  cases o with
  | start => exact h.start f
  | stop => exact h.stop f
  | release => exact h.stop f
  | round i w sharing => exact h.round f i w sharing
  | sweepOnce w => exact h.of_same rfl (Service.policy_obey d.service f (.sweepOnce w))
  | call st => exact h.of_same rfl (Service.policy_obey d.service f (.call st))

theorem Agrees.run (h : d.Agrees c policy) (f : Finisher σ P) (orders : List (Order P)) :
    (d.run f orders).Agrees c policy := by
  induction orders generalizing d with
  | nil => exact h
  | cons o orders ih => exact ih (h.obey f o)

/-- Nobody has been taken on yet. -/
theorem agrees_fresh (s : Stack P) (state : σ) (size : Nat) (interval : Duration) :
    (⟨⟨s, state, .ofSize size interval⟩, [], []⟩ : Chronicle σ P).Agrees (.ofSize size interval)
      (Service.mk s state (.ofSize size interval)).policy :=
  ⟨rfl, rfl, rfl, rfl, nofun, List.nodup_nil, 0, rfl, iff_of_false Bool.false_ne_true (by omega)⟩

/-! ### Since the last start -/

/-- There is a start with no end behind it. -/
def Up (orders : List (Order P)) : Prop := ∃ before after, orders = before ++ .start :: after ∧ ∀ o ∈ after, ¬ o.Ends

theorem up_concat (orders : List (Order P)) (o : Order P) : Up (orders ++ [o]) ↔ o = .start ∨ Up orders ∧ ¬ o.Ends := by
  constructor
  · rintro ⟨before, after, horders, hafter⟩
    rcases List.eq_nil_or_concat' after with rfl | ⟨after, last, rfl⟩
    · exact .inl (List.singleton_inj.1 (List.append_inj' horders rfl).2)
    · rw [← List.cons_append, ← List.append_assoc] at horders
      obtain ⟨rfl, hlast⟩ := List.append_inj' horders rfl
      obtain rfl : o = last := List.singleton_inj.1 hlast
      have hstays : ∀ o' ∈ after, ¬ o'.Ends := fun o' ho' => hafter o' (List.mem_append_left _ ho')
      exact .inr ⟨⟨before, after, rfl, hstays⟩, hafter o (List.mem_append_right _ (List.mem_singleton_self o))⟩
  · rintro (rfl | ⟨⟨before, after, rfl, hafter⟩, ho⟩)
    · exact ⟨orders, [], rfl, nofun⟩
    · refine ⟨before, after ++ [o], by simp, fun o' ho' => ?_⟩
      obtain ho' | ho' := List.mem_append.1 ho'
      · exact hafter o' ho'
      · rwa [List.mem_singleton.1 ho']

theorem isRunning_obey (v : Service σ P) (f : Finisher σ P) (o : Order P) :
    (v.obey f o).crew.isRunning = true ↔ o = .start ∨ v.crew.isRunning = true ∧ ¬ o.Ends := by
  cases o with
  | start => simp [Service.obey, Service.isRunning_start]
  | stop => simp [Service.obey, Service.isRunning_stop, Order.Ends]
  | release => simp [Service.obey, Service.isRunning_stop, Order.Ends]
  | round i w sharing =>
    have hholding : (v.round f w sharing i).crew.isRunning = v.crew.isRunning := by
      by_cases hworking : v.crew.workers[i]? = some .working
      · rw [Service.round_of_working hworking]
        split <;> rfl
      · rw [Service.round_of_not_working hworking]
    simp [Service.obey, hholding, Order.Ends]
  | sweepOnce w => simp [Service.obey, Service.sweepOnce, Order.Ends]
  | call st => simp [Service.obey, Order.Ends]

theorem isRunning_iff_up (f : Finisher σ P) {d : Chronicle σ P} (hfresh : d.service.crew.isRunning = false)
    (orders : List (Order P)) : (d.run f orders).service.crew.isRunning = true ↔ Up orders := by
  induction orders using List.reverseRecOn with
  | nil =>
    refine iff_of_false (fun h => ?_) fun ⟨before, after, h, _⟩ => by simp at h
    rw [run, List.foldl_nil, hfresh] at h
    exact Bool.false_ne_true h
  | append_singleton orders o ih => rw [run_concat, service_obey, isRunning_obey, up_concat, ih]

/-! ### The log -/

theorem omits_handOverDeeds {f : Finisher σ P} (hf : Discreet f) (state : σ) (s : Stack P) (found : List (Expired P)) :
    ∀ d ∈ s.handOverDeeds f state found, d.Omits Event.isOfCrew := by
  induction found generalizing state s with
  | nil => exact nofun
  | cons x rest ih =>
    intro d hd
    rcases List.mem_append.1 hd with hd | hd
    · rcases List.mem_append.1 hd with hd | hd
      · obtain ⟨acc, r, hd⟩ := Stack.mem_loopDeeds _ _ hd
        rw [List.mem_singleton.1 hd]
        trivial
      · rw [List.mem_singleton.1 hd]
        exact List.filter_eq_nil_iff.2 fun e he => by rw [hf state x e he]; exact Bool.false_ne_true
    · split at hd
      · exact ih _ _ d hd
      · rcases List.mem_cons.1 hd with rfl | hd
        · rfl
        · exact ih _ _ d hd
      · cases hd

theorem filter_log_handOver {f : Finisher σ P} (hf : Discreet f) (state : σ) (s : Stack P) (found : List (Expired P)) :
    (s.handOver f state found).2.1.log.filter Event.isOfCrew = s.log.filter Event.isOfCrew := by
  rw [Stack.handOver_eq_after]
  exact s.filter_log_after Event.alien_isOfCrew (omits_handOverDeeds hf state s found)

theorem filter_log_round {f : Finisher σ P} (hf : Discreet f) (v : Service σ P) (i : Nat) (w : Walk)
    (sharing : Sharing) :
    (v.round f w sharing i).stack.log.filter Event.isOfCrew = v.stack.log.filter Event.isOfCrew := by
  rw [Service.round]
  split
  · exact (filter_log_handOver hf _ _ _).trans (v.stack.filter_log_sweepWhere Event.alien_isOfCrew ..)
  · rfl

theorem filter_log_sweepOnce {f : Finisher σ P} (hf : Discreet f) (v : Service σ P) (w : Walk) :
    (v.sweepOnce f w).1.stack.log.filter Event.isOfCrew = v.stack.log.filter Event.isOfCrew :=
  (filter_log_handOver hf _ _ _).trans (v.stack.filter_log_sweepWhere Event.alien_isOfCrew ..)

/-- Whatever a crew has to say it says when it is started or stopped. -/
theorem filter_log_obey {f : Finisher σ P} (hf : Discreet f) (d : Chronicle σ P) (o : Order P) :
    ∃ more, (d.obey f o).said = d.said ++ more ∧
      (d.obey f o).service.stack.log.filter Event.isOfCrew = d.service.stack.log.filter Event.isOfCrew ++ more := by
  cases o with
  | start =>
    obtain ⟨more, hlog, hmore⟩ := d.service.exists_log_start
    refine ⟨more, ?_, ?_⟩
    · exact congrArg (d.said ++ ·) (news_of_log hlog)
    · rw [service_obey, Service.obey, hlog, List.filter_append, hmore]
  | stop | release =>
    obtain ⟨more, hlog, hmore⟩ := d.service.exists_log_stop
    refine ⟨more, ?_, ?_⟩
    · exact congrArg (d.said ++ ·) (news_of_log hlog)
    · rw [service_obey, Service.obey, hlog, List.filter_append, hmore]
  | round i w sharing =>
    refine ⟨[], ?_, ?_⟩
    · simp only [obey]
      split <;> exact (List.append_nil _).symm
    · rw [service_obey, Service.obey, filter_log_round hf, List.append_nil]
  | sweepOnce w =>
    refine ⟨[], (List.append_nil _).symm, ?_⟩
    rw [service_obey, Service.obey, filter_log_sweepOnce hf, List.append_nil]
  | call st =>
    refine ⟨[], (List.append_nil _).symm, ?_⟩
    rw [List.append_nil]
    exact d.service.stack.filter_log_step Event.alien_isOfCrew st

theorem filter_log_run {f : Finisher σ P} (hf : Discreet f) (d : Chronicle σ P) (orders : List (Order P)) :
    ∃ more, (d.run f orders).said = d.said ++ more ∧
      (d.run f orders).service.stack.log.filter Event.isOfCrew =
        d.service.stack.log.filter Event.isOfCrew ++ more := by
  induction orders using List.reverseRecOn with
  | nil => exact ⟨[], (List.append_nil _).symm, (List.append_nil _).symm⟩
  | append_singleton orders o ih =>
    obtain ⟨more, hsaid, hlog⟩ := ih
    obtain ⟨last, hsaid', hlog'⟩ := filter_log_obey hf (d.run f orders) o
    rw [run_concat]
    exact ⟨more ++ last, by rw [hsaid', hsaid, List.append_assoc], by rw [hlog', hlog, List.append_assoc]⟩

end Chronicle

/-- A service as it is set up, with nothing recorded of it. -/
def Chronicle.fresh (s : Stack P) (state : σ) (settings : Settings) (processors : Nat) : Chronicle σ P where
  service := ⟨s, state, .ofSize (settings.workers processors) settings.sweepInterval⟩

/-- Whatever the orders are, and wherever the finisher panics: a service is running exactly after a start with no end
behind it, and then and only then it has all of its workers. Starts and ends take turns in what they log. An end of a
generation tells how many of its workers have panicked and leaves none behind, and the next start has all of them. -/
theorem lifecycle (f : Finisher σ P) (s : Stack P) (state : σ) (settings : Settings) (processors : Nat)
    (orders : List (Order P)) :
    let size := settings.workers processors
    let fresh := Chronicle.fresh s state settings processors
    let policy := fresh.service.policy
    let d := fresh.run f orders
    let v := d.service
    v = orders.foldl (fun v o => v.obey f o) fresh.service ∧
    (∀ n, settings.numWorkers = some n → size = max n.toNat 1) ∧
    (v.crew.isRunning = true ↔
      ∃ before after, orders = before ++ .start :: after ∧ ∀ o ∈ after, ¬ o.Ends) ∧
    v.crew.workers.length = (if v.crew.isRunning then size else 0) ∧
    (∃ n, d.said.filter Event.isTurn =
        (List.range n).map (fun i => if i % 2 = 0 then .started size settings.sweepInterval policy else .stopped) ∧
      (v.crew.isRunning = true ↔ n % 2 = 1)) ∧
    (Discreet f → v.stack.log.filter Event.isOfCrew = s.log.filter Event.isOfCrew ++ d.said) ∧
    (v.crew.isRunning = true → v.start = v ∧ ∀ o : Order P, o.Ends →
      (v.obey f o).stack.log = v.stack.log ++ (List.replicate d.fallen.length .workerPanicked ++ [.stopped])) ∧
    (v.crew.isRunning = false → (∀ o : Order P, o.Ends → v.obey f o = v) ∧
      v.start.crew.workers = List.replicate size .working ∧
      v.start.stack.log = v.stack.log ++ [.started size settings.sweepInterval policy]) ∧
    (∀ o : Order P, o.Ends → (v.obey f o).crew.isRunning = false ∧ (v.obey f o).crew.workers = []) ∧
    (∀ e : Event, e.isTurn = true → e.level = .info) ∧ Event.workerPanicked.level = .warn := by
  intro size fresh policy d v
  have hagrees : d.Agrees (.ofSize size settings.sweepInterval) policy :=
    (Chronicle.agrees_fresh s state _ _).run f orders
  have hends {o : Order P} (ho : o.Ends) : v.obey f o = v.stop := by
    cases o <;> first | rfl | exact ho.elim
  refine ⟨fresh.service_run f orders, fun n hn => ?_, Chronicle.isRunning_iff_up f rfl orders, ?_, hagrees.turns,
    fun hf => ?_, fun hrunning => ⟨Service.start_of_running hrunning, fun o ho => ?_⟩,
    fun hrunning => ⟨fun o ho => ?_, ?_, ?_⟩, fun o ho => ?_, fun e he => ?_, rfl⟩
  · show settings.workers processors = max n.toNat 1
    rw [Settings.workers, Settings.chosenWorkers?, hn, Option.map_some, Option.getD_some]
  · rw [hagrees.workers]
    split
    · exact Crew.length_roster _ _
    · rfl
  · obtain ⟨more, hsaid, hlog⟩ := Chronicle.filter_log_run hf fresh orders
    rw [hlog, hsaid]
    rfl
  · rw [hends ho, Service.log_stop_of_running hrunning, hagrees.farewell hrunning]
  · rw [hends ho, Service.stop_of_stopped hrunning]
  · rw [Service.crew_start_of_stopped hrunning, hagrees.workers_nil hrunning, hagrees.size]
    rfl
  · rw [Service.log_start_of_stopped hrunning, hagrees.size, hagrees.interval, hagrees.policy_eq]
    rfl
  · rw [hends ho]
    exact ⟨v.isRunning_stop, hagrees.workers_stop⟩
  · cases e <;> first | rfl | cases he

/-- The outlets at hand leave the events of a crew to the crew. -/
theorem discreet_finish : Discreet (Outlet.finish : Finisher (Outlet P) P) := by
  intro state x e he
  cases state with
  | queue q =>
    simp only [Outlet.finish] at he
    split at he <;> cases he
  | note =>
    rw [List.mem_singleton.1 he]
    rfl
  | recorder response calls => cases response <;> cases he

/-- A track is there to be dropped, two workers wake up, and the one that gets it breaks off. -/
def crashOrders : List (Order String) :=
  [.start, .call (.plain 1 (.register ⟨"a", 1, "x"⟩)), .call (.plain 1 (.setClock ⟨11⟩)), .round 0 .ascending .byName,
    .round 1 .ascending .byName]

def crashed : Chronicle (Outlet String) String :=
  (Chronicle.fresh (.ofPolicies [⟨⟨10⟩, ⟨100⟩⟩]) (.recorder .panic []) { numWorkers := some 2 } 8).run Outlet.finish
    crashOrders

theorem lifecycle_crashed :
    crashed.service.stop.stack.log.filter Event.isOfCrew =
        [.started 2 (.ofMillis 1000) ⟨⟨10⟩, ⟨100⟩⟩, .workerPanicked, .stopped] ∧
      crashed.service.stop.crew.workers = [] := by
  obtain ⟨-, -, -, -, -, hlog, hrunning, -, hends, -⟩ :=
    lifecycle Outlet.finish (.ofPolicies [⟨⟨10⟩, ⟨100⟩⟩]) (.recorder .panic []) { numWorkers := some 2 } 8 crashOrders
  have hup : crashed.service.crew.isRunning = true := by decide +kernel
  have hfallen : crashed.fallen = [1] := by decide +kernel
  have hsaid : crashed.said = [.started 2 (.ofMillis 1000) ⟨⟨10⟩, ⟨100⟩⟩] := by decide +kernel
  have hstop : crashed.service.stop.stack.log =
      crashed.service.stack.log ++ (List.replicate crashed.fallen.length .workerPanicked ++ [.stopped]) :=
    (hrunning hup).2 .stop trivial
  have hkept : crashed.service.stack.log.filter Event.isOfCrew = [] ++ crashed.said := hlog discreet_finish
  refine ⟨?_, (hends .stop trivial).2⟩
  rw [hstop, List.filter_append, hkept, hsaid, hfallen]
  rfl

end LiveTracks
