import LiveTracks.Proofs.Background
import LiveTracks.Proofs.Delivery

/-!
# Finishers that watch the stack

A finisher may look at the stack while it is called, and what it sees goes into what it answers and reports. Such a
finisher is a `Finisher` whose state includes a view of the stack, and this view is the stack at any moment
(`handOver_watching`). So it is known of every call of a sweep on demand what the finisher found there, and what the
stack has become once all calls have been made (`sweepOnce_hands_over`).
-/

namespace LiveTracks

variable {σ P : Type}

/-! ### Settling a call -/

/-- What is logged of a call because of how it ended. -/
def Handling.complaints (x : Expired P) (h : Handling P) : List Event :=
  match h.outcome with
  | .refused text => [.handoverFailed x.entry.key text]
  | _ => []

namespace Stack

/-- The stack once a call has come to its end. -/
def settled (s : Stack P) (x : Expired P) (h : Handling P) : Stack P := (s.absorb h).logs (h.complaints x)

theorem handOver_of_lasts {f : Finisher σ P} {state : σ} {x : Expired P} (h : (f state x).2.outcome ≠ .panicked)
    (s : Stack P) (rest : List (Expired P)) :
    s.handOver f state (x :: rest) = (s.settled x (f state x).2).handOver f (f state x).1 rest := by
  cases ho : (f state x).2.outcome with
  | accepted => simp only [handOver, settled, Handling.complaints, ho, logs_nil]
  | refused text => simp only [handOver, settled, Handling.complaints, ho]
  | panicked => exact absurd ho h

theorem failures_registerAll (s : Stack P) (reports : List (Report P)) :
    (s.registerAll reports).failures = s.failures := by
  induction reports generalizing s with
  | nil => rfl
  | cons r reports ih =>
    rw [registerAll, List.foldl_cons]
    exact (ih _).trans (s.failures_registerAt s.depth r)

theorem failures_settled (s : Stack P) (x : Expired P) (h : Handling P) :
    (s.settled x h).failures = s.failures ++ (h.events.filter Event.isFailure ++ h.complaints x) := by
  have hcomplaints : (h.complaints x).filter Event.isFailure = h.complaints x := by
    unfold Handling.complaints
    split <;> rfl
  rw [settled, absorb, failures_logs, failures_logs, failures_registerAll, hcomplaints, List.append_assoc]

theorem settled_filled (s : Stack P) (reports : List (Report P)) (log : List Event) (x : Expired P) (h : Handling P) :
    ∃ log', (s.filled s.depth (fun _ => reports) log).settled x h =
      s.filled s.depth (fun _ => reports ++ h.reports) log' := by
  obtain ⟨log', habsorbed⟩ := absorb_filled s reports log h
  exact ⟨log' ++ h.complaints x, by rw [settled, habsorbed]; rfl⟩

variable {s : Stack P} {k j : Nat} {reports : List (Report P)} {log : List Event} {key : Key} {r : Report P}

/-- A track that no layer has a row of begins a new life with a report. -/
theorem row?_filled_of_new (hr : (reports.filter (·.names key)).getLast? = some r) (hj : 0 < j) (hjk : j ≤ k)
    (hdepth : j ≤ s.depth) (hnew : s.row? j key = none) :
    (s.filled k (fun _ => reports) log).row? j key = some ⟨s.clock, s.clock⟩ := by
  obtain ⟨i, rfl⟩ := Nat.exists_eq_succ_of_ne_zero (Nat.ne_of_gt hj)
  obtain ⟨l, hl⟩ : ∃ l, s.layer? (i + 1) = some l := ⟨_, List.getElem?_eq_getElem hdepth⟩
  have hrow : l.rows.find? key = none := by
    rwa [row?, hl, Option.bind_some, Option.map_eq_none_iff] at hnew
  rw [row?, layer?_filled hj hjk, hl, Option.map_some, Option.bind_some, Layer.find?_filled, hr]
  simp only [Option.map_some, Option.some_or, Layer.extended, hrow, Option.map_none, Option.getD_none]
  rfl

end Stack

/-! ### Watching -/

/-- A finisher that may look at the stack. -/
abbrev Watcher (σ P : Type) := Stack P → σ → Expired P → σ × Handling P

/-- A call of a finisher, with the stack that it saw. -/
structure Sighting (P : Type) where
  seen : Stack P
  track : Expired P
  handling : Handling P

/-- The view that a finisher has of the stack, its own state and its calls so far. -/
structure Watch (σ P : Type) where
  view : Stack P
  state : σ
  calls : List (Sighting P) := []

namespace Watcher

def finisher (g : Watcher σ P) : Finisher (Watch σ P) P := fun watch x =>
  let (state, h) := g watch.view watch.state x
  (⟨watch.view.settled x h, state, watch.calls ++ [⟨watch.view, x, h⟩]⟩, h)

/-- The watch once all these tracks have been handed over. -/
def attend (g : Watcher σ P) (watch : Watch σ P) (found : List (Expired P)) : Watch σ P :=
  found.foldl (fun watch x => (g.finisher watch x).1) watch

def NeverPanics (g : Watcher σ P) : Prop := ∀ view state x, (g view state x).2.outcome ≠ .panicked

variable {g : Watcher σ P}

theorem handOver_watching (hg : g.NeverPanics) (watch : Watch σ P) (found : List (Expired P)) :
    watch.view.handOver g.finisher watch found = (g.attend watch found, (g.attend watch found).view, true) := by
  induction found generalizing watch with
  | nil => rfl
  | cons x rest ih =>
    have hlasts : (g.finisher watch x).2.outcome ≠ .panicked := hg watch.view watch.state x
    rw [Stack.handOver_of_lasts hlasts]
    exact ih (g.finisher watch x).1

theorem attend_concat (g : Watcher σ P) (watch : Watch σ P) (found : List (Expired P)) (x : Expired P) :
    g.attend watch (found ++ [x]) = (g.finisher (g.attend watch found) x).1 := by
  rw [attend, List.foldl_append]
  rfl

theorem tracks_attend (g : Watcher σ P) (watch : Watch σ P) (found : List (Expired P)) :
    (g.attend watch found).calls.map (·.track) = watch.calls.map (·.track) ++ found := by
  induction found using List.reverseRecOn with
  | nil => exact (List.append_nil _).symm
  | append_singleton found x ih =>
    rw [attend_concat, ← List.append_assoc, ← ih, finisher, List.map_append]
    rfl

/-- A call sees the stack as it is after the calls before it. -/
theorem seen_attend (g : Watcher σ P) (view : Stack P) (state : σ) (found : List (Expired P)) {k : Nat}
    {c : Sighting P} (hc : (g.attend ⟨view, state, []⟩ found).calls[k]? = some c) :
    c.seen = (g.attend ⟨view, state, []⟩ (found.take k)).view := by
  induction found using List.reverseRecOn with
  | nil => cases hc
  | append_singleton found x ih =>
    have hlength : (g.attend ⟨view, state, []⟩ found).calls.length = found.length := by
      have htracks := congrArg List.length (g.tracks_attend ⟨view, state, []⟩ found)
      rwa [List.length_map, List.map_nil, List.nil_append] at htracks
    rw [attend_concat] at hc
    rcases getElem?_concat_cases hc with hc | ⟨rfl, rfl⟩
    · have hk := (List.getElem?_eq_some_iff.1 hc).1
      rw [List.take_append_of_le_length (by omega)]
      exact ih hc
    · rw [hlength, List.take_left]

end Watcher

/-- All that the calls reported, in the order of the calls. -/
def Sighting.reports (calls : List (Sighting P)) : List (Report P) := calls.flatMap (·.handling.reports)

/-- All that the log says of failures in these calls: what a finisher has logged of its own, and one line for each call
that it refused. -/
def Sighting.failures (calls : List (Sighting P)) : List Event :=
  calls.flatMap fun c => c.handling.events.filter Event.isFailure ++ c.handling.complaints c.track

/-- The calls for these tracks, beginning with the stack that a sweep has left. -/
structure Attended (g : Watcher σ P) (swept : Stack P) (found : List (Expired P)) (watch : Watch σ P) : Prop where
  tracks : watch.calls.map (·.track) = found
  answered : ∀ c ∈ watch.calls, ∃ state, c.handling = (g c.seen state c.track).2
  view : ∃ log, watch.view = swept.filled swept.depth (fun _ => Sighting.reports watch.calls) log
  failures : watch.view.failures = swept.failures ++ Sighting.failures watch.calls
  seen : ∀ k c, watch.calls[k]? = some c → ∃ log,
    c.seen = swept.filled swept.depth (fun _ => Sighting.reports (watch.calls.take k)) log

theorem attended_nil (g : Watcher σ P) (swept : Stack P) (state : σ) : Attended g swept [] ⟨swept, state, []⟩ where
  tracks := rfl
  answered := nofun
  view := ⟨swept.log, (swept.filled_nil swept.depth).symm⟩
  failures := (List.append_nil _).symm
  seen := nofun

theorem Attended.concat {g : Watcher σ P} {swept : Stack P} {found : List (Expired P)} {watch : Watch σ P}
    (h : Attended g swept found watch) (x : Expired P) :
    Attended g swept (found ++ [x]) (g.finisher watch x).1 := by
  obtain ⟨log, hview⟩ := h.view
  rcases hcall : g watch.view watch.state x with ⟨state, handling⟩
  have hnext : (g.finisher watch x).1 =
      ⟨watch.view.settled x handling, state, watch.calls ++ [⟨watch.view, x, handling⟩]⟩ := by
    rw [Watcher.finisher, hcall]
  rw [hnext]
  refine { tracks := ?tracks, answered := ?answered, view := ?view, failures := ?failures, seen := ?seen }
  case tracks => rw [List.map_append, h.tracks, List.map_singleton]
  case answered =>
    intro c hc
    rcases List.mem_append.1 hc with hc | hc
    · exact h.answered c hc
    · obtain rfl := List.mem_singleton.1 hc
      exact ⟨watch.state, by rw [hcall]⟩
  case view =>
    obtain ⟨log', hsettled⟩ := swept.settled_filled (Sighting.reports watch.calls) log x handling
    refine ⟨log', ?_⟩
    rw [hview, hsettled, Sighting.reports, Sighting.reports, List.flatMap_append, List.flatMap_singleton]
  case failures =>
    rw [Stack.failures_settled, h.failures, Sighting.failures, Sighting.failures, List.flatMap_append,
      List.flatMap_singleton, List.append_assoc]
  case seen =>
    intro k c hc
    rcases getElem?_concat_cases hc with hc | ⟨rfl, rfl⟩
    · rw [List.take_append_of_le_length (Nat.le_of_lt (List.getElem?_eq_some_iff.1 hc).1)]
      exact h.seen k c hc
    · rw [List.take_left]
      exact ⟨log, hview⟩

theorem attended_attend (g : Watcher σ P) (swept : Stack P) (state : σ) (found : List (Expired P)) :
    Attended g swept found (g.attend ⟨swept, state, []⟩ found) := by
  induction found using List.reverseRecOn with
  | nil => exact attended_nil g swept state
  | append_singleton found x ih =>
    rw [Watcher.attend_concat]
    exact ih.concat x

/-! ### Sweeps on demand -/

/-- A sweep of `s` on demand: what it left and found, the calls made for what it found, and the stack after them. -/
structure FinishedOnce (g : Watcher σ P) (s swept : Stack P) (found : List (Expired P)) (calls : List (Sighting P))
    (final : Stack P) : Prop where
  exact : Stack.ExactSweep s s.depth swept found
  gone : ∀ x ∈ found, swept.base.find? x.entry.key = none ∧
    ∀ j, j ≤ s.depth → swept.row? j x.entry.key = none
  /-- One call for each track, in the order of the sweep. -/
  tracks : calls.map (·.track) = found
  answered : ∀ c ∈ calls, ∃ state, c.handling = (g c.seen state c.track).2
  /-- What a call saw is what the sweep left, with all that was reported in the calls before. -/
  seen : ∀ k c, calls[k]? = some c →
    { c.seen with log := [] } = { swept.registerAll (Sighting.reports (calls.take k)) with log := [] }
  stack : { final with log := [] } = { swept.registerAll (Sighting.reports calls) with log := [] }
  failures : final.failures = s.failures ++ Sighting.failures calls
  /-- A track that was reported again has the last payload reported, and a new life in every layer. -/
  returned : ∀ x ∈ found, ∀ r, ((Sighting.reports calls).filter (·.names x.entry.key)).getLast? = some r →
    final.base.find? x.entry.key = some (x.entry.key.entry r.payload) ∧
      ∀ j, 0 < j → j ≤ s.depth → final.row? j x.entry.key = some ⟨s.clock, s.clock⟩
  absent : ∀ x ∈ found, (∀ r ∈ Sighting.reports calls, r.names x.entry.key = false) →
    final.base.find? x.entry.key = none ∧ ∀ j, j ≤ s.depth → final.row? j x.entry.key = none

theorem Attended.finishedOnce {g : Watcher σ P} {s swept : Stack P} {found : List (Expired P)} {watch : Watch σ P}
    (h : Attended g swept found watch) (hexact : Stack.ExactSweep s s.depth swept found)
    (hdepth : swept.depth = s.depth) (hclock : swept.clock = s.clock) (hfailures : swept.failures = s.failures) :
    FinishedOnce g s swept found watch.calls watch.view := by
  have hverdict : ∀ x ∈ found, (s.verdict? s.depth x.entry.key).isSome = true := by
    intro x hx
    rw [((hexact.found_iff x).1 hx).2]
    rfl
  have hgone : ∀ x ∈ found, swept.base.find? x.entry.key = none ∧
      ∀ j, j ≤ s.depth → swept.row? j x.entry.key = none := by
    intro x hx
    refine ⟨by rw [hexact.entries, if_pos (hverdict x hx)], fun j hj => ?_⟩
    rw [hexact.rows, if_pos ⟨hj, hverdict x hx⟩]
  obtain ⟨log, hview⟩ := h.view
  refine
    { exact := hexact, gone := hgone, tracks := h.tracks, answered := h.answered,
      seen := fun k c hc => ?seen, stack := ?stack,
      failures := by rw [h.failures, hfailures],
      returned := fun x hx r hr => ?returned, absent := fun x hx hnone => ?absent }
  case seen =>
    obtain ⟨log', hseen⟩ := h.seen k c hc
    obtain ⟨log'', hall⟩ := swept.registerAll_eq_filled (Sighting.reports (watch.calls.take k))
    rw [hseen, hall]
    rfl
  case stack =>
    obtain ⟨log', hall⟩ := swept.registerAll_eq_filled (Sighting.reports watch.calls)
    rw [hview, hall]
    rfl
  case returned =>
    rw [hview]
    refine ⟨by rw [Stack.find?_filled, hr]; rfl, fun j hj hjs => ?_⟩
    rw [← hdepth] at hjs
    rw [Stack.row?_filled_of_new hr hj hjs hjs ((hgone x hx).2 j (hdepth ▸ hjs)), hclock]
  case absent =>
    rw [hview]
    refine ⟨by rw [Stack.find?_filled, filter_names_eq_nil hnone]; exact (hgone x hx).1, fun j hj => ?_⟩
    rw [Stack.row?_filled_of_unnamed hnone (hdepth ▸ hj)]
    exact (hgone x hx).2 j hj

namespace Service

variable {s : Stack P}

theorem handOver_unseeing (f : Finisher σ P) (watch : Watch σ P) (s : Stack P) (found : List (Expired P)) :
    let handed := s.handOver (Watcher.finisher fun _ => f) watch found
    s.handOver f watch.state found = (handed.1.state, handed.2) := by
  induction found generalizing watch s with
  | nil => rfl
  | cons x rest ih =>
    have hcall : (Watcher.finisher (fun _ => f) watch x).2 = (f watch.state x).2 := rfl
    cases ho : (f watch.state x).2.outcome with
    | accepted =>
      simp only [Stack.handOver, hcall, ho]
      exact ih (Watcher.finisher (fun _ => f) watch x).1 _
    | refused text =>
      simp only [Stack.handOver, hcall, ho]
      exact ih (Watcher.finisher (fun _ => f) watch x).1 _
    | panicked =>
      simp only [Stack.handOver, hcall, ho]
      rfl

/-- A finisher that does not look at the stack is one that may. -/
theorem sweepOnce_unseeing (f : Finisher σ P) (watch : Watch σ P) (s : Stack P) (crew : Crew) (w : Walk) :
    let once := sweepOnce ⟨s, watch, crew⟩ (Watcher.finisher fun _ => f) w
    sweepOnce ⟨s, watch.state, crew⟩ f w = (⟨once.1.stack, once.1.finisher.state, crew⟩, once.2) := by
  simp only [sweepOnce]
  rw [handOver_unseeing f watch]

theorem sweepOnce_hands_over {g : Watcher σ P} (hg : g.NeverPanics) (ha : s.armed = none)
    (hnamed : ∀ l ∈ s.layers, Stack.Named l.rows) (state : σ) (crew : Crew) (w : Walk) :
    let swept := (s.sweep s.depth w).1
    let found := (s.sweep s.depth w).2
    let once := sweepOnce ⟨s, ⟨swept, state, []⟩, crew⟩ g.finisher w
    once.2 = found.length ∧ once.1.crew = crew ∧
      (∀ k c, once.1.finisher.calls[k]? = some c →
        c.seen = (swept.handOver g.finisher ⟨swept, state, []⟩ (found.take k)).2.1) ∧
      FinishedOnce g s swept found once.1.finisher.calls once.1.stack := by
  intro swept found once
  have hhanded := Watcher.handOver_watching hg ⟨swept, state, []⟩ found
  have honce : once = (⟨(g.attend ⟨swept, state, []⟩ found).view, g.attend ⟨swept, state, []⟩ found, crew⟩,
      found.length) := by
    simp only [once, sweepOnce]
    rw [hhanded]
  have hexact := Stack.exactSweep_of_unarmed ha hnamed s.depth w
  obtain ⟨_, hsweep, -, -⟩ := Stack.sweep_of_unarmed ha hnamed s.depth w
  have hdepth : swept.depth = s.depth := by
    simp only [swept, hsweep]
    exact Stack.depth_left fun _ => true
  have hfailures : swept.failures = s.failures := by
    have hpart := s.failures_sweepPart s.depth w .byName 0 1
    rwa [s.sweepPart_one] at hpart
  rw [honce]
  refine ⟨rfl, rfl, fun k c hc => ?_, ?_⟩
  · rw [Watcher.handOver_watching hg ⟨swept, state, []⟩ (found.take k)]
    exact g.seen_attend swept state found hc
  · exact (attended_attend g swept state found).finishedOnce hexact hdepth (by simp only [swept, hsweep]; rfl) hfailures

/-- Refuses the first track and reports it again, and accepts the others. -/
def hesitant : Watcher Nat String := fun _ n x =>
  if n = 0 then
    (1, { (Outlet.respond (.reregister fun p => p ++ "'") x) with outcome := .refused "not yet" })
  else (n + 1, { outcome := .accepted })

theorem sweepOnce_hands_over_hesitant :
    let swept := (Stack.sharedOut.sweep 1 .ascending).1
    let once := sweepOnce ⟨Stack.sharedOut, ⟨swept, 0, []⟩, .ofSize 1 (.ofSeconds 1)⟩ hesitant.finisher .ascending
    once.2 = 2 ∧ once.1.finisher.calls.map (fun c => c.seen.count "a") = [1, 2] ∧
      once.1.stack.failures.map Event.line = ["WARN Failed to finish track 1 on camera a: not yet"] ∧
      (once.1.stack.getByCamera "a").map (·.payload) = ["x'", "z"] ∧
      FinishedOnce hesitant Stack.sharedOut swept (Stack.sharedOut.sweep 1 .ascending).2 once.1.finisher.calls
        once.1.stack := by
  have hpanics : hesitant.NeverPanics := by
    intro view n x
    unfold hesitant
    split <;> exact nofun
  have hreachable : Stack.sharedOut.Reachable := ⟨_, _, rfl⟩
  obtain ⟨hnumber, -, -, hfinished⟩ := sweepOnce_hands_over hpanics (s := Stack.sharedOut) rfl
    (Stack.named_of_reachable hreachable) 0 (.ofSize 1 (.ofSeconds 1)) .ascending
  exact ⟨hnumber, by decide +kernel, by decide +kernel, by decide +kernel, hfinished⟩

end Service

end LiveTracks
