import LiveTracks.Proofs.Deeds
import LiveTracks.Session

/-!
# Deeds of a session

The reports of a finisher, the work of the crew and whatever else a session does to its stack are deeds too
(`Session.proceed_eq_after`). A `Session.Move` is a command with the number that it is for and with its own
orders of visiting and of sharing out, so a list of moves is a session under any circumstances.
-/

namespace LiveTracks

namespace Stack

variable {σ P : Type}

/-! ### Finishers -/

def registerAllDeeds (s : Stack P) (reports : List (Report P)) : List (Deed P) :=
  loopDeeds (fun s r => (s.register r).1) (fun s r => [.report s.depth r]) s reports

def absorbDeeds (s : Stack P) (h : Handling P) : List (Deed P) :=
  s.registerAllDeeds h.reports ++ [.log h.events]

def handOverDeeds (f : Finisher σ P) : σ → Stack P → List (Expired P) → List (Deed P)
  | _, _, [] => []
  | state, s, x :: rest =>
    let (state', h) := f state x
    let s' := s.absorb h
    s.absorbDeeds h ++
      match h.outcome with
      | .accepted => handOverDeeds f state' s' rest
      | .refused text =>
        let failed := [.handoverFailed x.entry.key text]
        .log failed :: handOverDeeds f state' (s'.logs failed) rest
      | .panicked => []

theorem absorb_eq_after (s : Stack P) (h : Handling P) : s.absorb h = s.after (s.absorbDeeds h) := by
  have hall : s.registerAll h.reports = s.after (s.registerAllDeeds h.reports) :=
    foldl_eq_after (fun (s : Stack P) r => (s.register r).1) (fun s r => [.report s.depth r])
      (fun s => s) (fun _ _ => rfl) s h.reports
  rw [absorb, hall, absorbDeeds, after_append]
  rfl

theorem handOver_eq_after (f : Finisher σ P) (state : σ) (s : Stack P) (found : List (Expired P)) :
    (s.handOver f state found).2.1 = s.after (s.handOverDeeds f state found) := by
  induction found generalizing state s with
  | nil => rfl
  | cons x rest ih =>
    simp only [handOver, handOverDeeds, after_append, ← absorb_eq_after]
    cases (f state x).2.outcome with
    | accepted => exact ih _ _
    | refused text => exact ih _ _
    | panicked => rfl

end Stack

open Stack

namespace Service

variable {σ P : Type}

def sweepOnceDeeds (v : Service σ P) (f : Finisher σ P) (w : Walk) : List (Deed P) :=
  let (swept, found) := v.stack.sweep v.stack.depth w
  v.stack.sweepDeeds v.stack.depth w (fun _ => true) ++ swept.handOverDeeds f v.finisher found

def startDeeds (v : Service σ P) : List (Deed P) := [.log (v.crew.start v.policy).2]

def stopDeeds (v : Service σ P) : List (Deed P) := [.log v.crew.stop.2]

def roundDeeds (f : Finisher σ P) (w : Walk) (sharing : Sharing) (v : Service σ P) (i : Nat) :
    List (Deed P) :=
  match v.crew.workers[i]? with
  | some .working =>
    let (swept, found) := v.stack.sweepPart v.stack.depth w sharing i v.crew.size
    v.stack.partDeeds v.stack.depth w sharing i v.crew.size ++ swept.handOverDeeds f v.finisher found
  | _ => []

def roundsDeeds (v : Service σ P) (f : Finisher σ P) (w : Walk) (sharing : Sharing) :
    List (Deed P) :=
  loopDeeds (fun v i => v.round f w sharing i) (roundDeeds f w sharing) v
    (List.range v.crew.workers.length)

theorem sweepOnce_eq_after (v : Service σ P) (f : Finisher σ P) (w : Walk) :
    (v.sweepOnce f w).1.stack = v.stack.after (v.sweepOnceDeeds f w) := by
  simp only [sweepOnce, sweepOnceDeeds, handOver_eq_after, after_append, ← sweepWhere_eq_after]
  rfl

theorem start_eq_after (v : Service σ P) : v.start.stack = v.stack.after v.startDeeds := rfl

theorem stop_eq_after (v : Service σ P) : v.stop.stack = v.stack.after v.stopDeeds := rfl

theorem round_eq_after (v : Service σ P) (f : Finisher σ P) (w : Walk) (sharing : Sharing)
    (i : Nat) : (v.round f w sharing i).stack = v.stack.after (v.roundDeeds f w sharing i) := by
  unfold round roundDeeds
  cases v.crew.workers[i]? with
  | none => rfl
  | some worker =>
    cases worker with
    | panicked => rfl
    | working => simp only [handOver_eq_after, after_append, ← sweepPart_eq_after]

theorem rounds_eq_after (v : Service σ P) (f : Finisher σ P) (w : Walk) (sharing : Sharing) :
    (v.rounds f w sharing).stack = v.stack.after (v.roundsDeeds f w sharing) :=
  foldl_eq_after _ _ (·.stack) (fun v i => v.round_eq_after f w sharing i) v _

end Service

namespace Session

/-! ### Several callers -/

def registerListDeeds (k : Nat) (reports : List (Report String)) : List (Deed String) :=
  reports.map (.report k)

def registerListsDeeds (k : Nat) (lists : List (List (Report String))) : List (Deed String) :=
  lists.flatMap (registerListDeeds k)

def clearTimesDeeds (k : Nat) (s : Stack String) (camera : String) : Nat → List (Deed String)
  | 0 => []
  | n + 1 => s.clearDeeds k camera ++ clearTimesDeeds k (s.clearAt k camera) camera n

def contendDeeds (k : Nat) (s : Stack String) (camera : String) (writers each clears : Nat) :
    List (Deed String) :=
  let lists := (List.range writers).map (writerReports camera each)
  let written := (registerLists k s lists).1
  let settled := clearTimes k written camera clears
  registerListsDeeds k lists ++ clearTimesDeeds k written camera clears ++
    settled.clearDeeds k camera ++ [.setLog s.log]

def sweepPartsDeeds (w : Walk) (sharing : Sharing) (s : Stack String) (k parts p : Nat) :
    Nat → List (Deed String)
  | 0 => []
  | left + 1 => s.partDeeds k w sharing p parts ++
    sweepPartsDeeds w sharing (s.sweepPart k w sharing p parts).1 k parts (p + 1) left

theorem registerList_eq_after (k : Nat) (s : Stack String) (reports : List (Report String)) :
    (registerList k s reports).1 = s.after (registerListDeeds k reports) := by
  induction reports generalizing s with
  | nil => rfl
  | cons r reports ih => exact ih _

theorem registerLists_eq_after (k : Nat) (s : Stack String) (lists : List (List (Report String))) :
    (registerLists k s lists).1 = s.after (registerListsDeeds k lists) := by
  induction lists generalizing s with
  | nil => rfl
  | cons reports lists ih =>
    simp only [registerLists, registerListsDeeds, List.flatMap_cons, after_append,
      ← registerList_eq_after]
    exact ih _

theorem clearTimes_eq_after (k : Nat) (s : Stack String) (camera : String) (n : Nat) :
    clearTimes k s camera n = s.after (clearTimesDeeds k s camera n) := by
  induction n generalizing s with
  | zero => rfl
  | succ n ih => rw [clearTimes, clearTimesDeeds, after_append, ← clearAt_eq_after, ih]

theorem contend_eq_after (k : Nat) (s : Stack String) (camera : String)
    (writers each clears : Nat) :
    (contend k s camera writers each clears).1 =
      s.after (contendDeeds k s camera writers each clears) := by
  simp only [contend, contendDeeds, after_append, ← registerLists_eq_after, ← clearTimes_eq_after,
    ← clearAt_eq_after]
  rfl

theorem sweepParts_eq_after (w : Walk) (sharing : Sharing) (s : Stack String) (k parts p left : Nat) :
    (sweepParts w sharing s k parts p left).1 =
      s.after (sweepPartsDeeds w sharing s k parts p left) := by
  induction left generalizing s p with
  | zero => rfl
  | succ left ih =>
    simp only [sweepParts, sweepPartsDeeds, after_append, ← sweepPart_eq_after]
    exact ih _ _

/-! ### Commands -/

def turnDeeds (s : Session) (now : Instant) : List (Deed String) :=
  match s.source with
  | .dial => [.setClock now]
  | .machine _ => []

def backgroundDeeds (w : Walk) (sharing : Sharing) (expected : Nat)
    (v : Service (Outlet String) String) : List (Deed String) :=
  let started := v.start
  let worked := if expected = 0 then started else started.rounds Outlet.finish w sharing
  v.startDeeds ++ (if expected = 0 then [] else started.roundsDeeds Outlet.finish w sharing) ++
    worked.stopDeeds

def serveDeeds (s : Session) (work : Service (Outlet String) String → List (Deed String)) :
    List (Deed String) :=
  match s.outlet with
  | some o => work (s.service o)
  | none => []

def runDeeds (w : Walk) (sharing : Sharing) (s : Session) (k : Nat) : Command → List (Deed String)
  | .call c => s.stack.callDeeds w sharing k c
  | .logSummary => [.log (s.stack.census.summary?.toList.map .summary)]
  | .advance d => s.turnDeeds (s.dial.add d)
  | .setDial now => s.turnDeeds now
  | .sweepParts parts => sweepPartsDeeds w sharing s.stack k parts 0 parts
  | .registerLists lists => registerListsDeeds k lists
  | .contend camera writers each clears => contendDeeds k s.stack camera writers each clears
  | .sweepOnce => s.serveDeeds fun v => v.sweepOnceDeeds Outlet.finish w
  | .start => s.serveDeeds fun v => v.startDeeds
  | .stop | .release => s.serveDeeds fun v => v.stopDeeds
  | .background expected => s.serveDeeds (backgroundDeeds w sharing expected)
  | .hold _ _ _ | .held _ | .view | .holdView _ | .heldView _ | .countFor _ | .policy | .isRunning |
    .workers | .receive | .drain | .drainCount | .close => []

theorem turn_eq_after (s : Session) (now : Instant) :
    (s.turn now).stack = s.stack.after (s.turnDeeds now) := by
  unfold turn turnDeeds
  cases s.source <;> rfl

theorem background_eq_after (w : Walk) (sharing : Sharing) (expected : Nat)
    (v : Service (Outlet String) String) :
    (background w sharing expected v).1.stack =
      v.stack.after (backgroundDeeds w sharing expected v) := by
  unfold background backgroundDeeds
  by_cases he : expected = 0
  · simp only [he, if_true, List.append_nil, after_append, ← Service.start_eq_after,
      ← Service.stop_eq_after]
  · simp only [he, if_false, after_append, ← Service.start_eq_after, ← Service.rounds_eq_after,
      ← Service.stop_eq_after]

theorem serve_eq_after (s : Session)
    {work : Service (Outlet String) String → Service (Outlet String) String × Reply}
    {deeds : Service (Outlet String) String → List (Deed String)}
    (h : ∀ v, (work v).1.stack = v.stack.after (deeds v)) :
    (s.serve work).1.stack = s.stack.after (s.serveDeeds deeds) := by
  unfold serve serveDeeds
  cases s.outlet with
  | none => rfl
  | some o => exact h (s.service o)

theorem run_eq_after (w : Walk) (sharing : Sharing) (s : Session) (k : Nat) (c : Command) :
    (s.run w sharing k c).1.stack = s.stack.after (s.runDeeds w sharing k c) := by
  cases c with
  | call c => exact s.stack.call_eq_after w sharing k c
  | advance d => exact s.turn_eq_after _
  | setDial now => exact s.turn_eq_after now
  | sweepParts parts => exact sweepParts_eq_after w sharing s.stack k parts 0 parts
  | registerLists lists => exact registerLists_eq_after k s.stack lists
  | contend camera writers each clears => exact contend_eq_after k s.stack camera writers each clears
  | sweepOnce =>
    simp only [run, runDeeds]
    exact s.serve_eq_after fun v => v.sweepOnce_eq_after Outlet.finish w
  | start => exact s.serve_eq_after fun v => v.start_eq_after
  | stop => exact s.serve_eq_after fun v => v.stop_eq_after
  | release => exact s.serve_eq_after fun v => v.stop_eq_after
  | background expected => exact s.serve_eq_after (background_eq_after w sharing expected)
  | receive =>
    simp only [run, receive, runDeeds, after_nil]
    cases s.outlet <;> rfl
  | drain =>
    simp only [run, drain, runDeeds, after_nil]
    cases s.outlet <;> rfl
  | drainCount =>
    simp only [run, drain, runDeeds, after_nil]
    cases s.outlet <;> rfl
  | _ => rfl

/-! ### Moves -/

/-- A command, the number that it is for, or the top if there is none given, and how a sweep would visit
and share out. -/
structure Move where
  walk : Walk
  sharing : Sharing
  number : Option Nat
  command : Command

def Move.plain (number : Option Nat) (command : Command) : Move := ⟨.ascending, .byName, number, command⟩

def quiet (s : Session) : Session := { s.tick with stack := { s.tick.stack with log := [] } }

/-- Carries out a command as a step does. -/
def proceed (s : Session) (m : Move) : Session :=
  (s.quiet.run m.walk m.sharing (m.number.getD s.stack.depth) m.command).1

/-- A step is that, walking upwards and with the shares in the order of the names. -/
theorem step_fst (s : Session) (number : Option Nat) (c : Command) :
    (s.step number c).1 = s.proceed (.plain number c) := rfl

def quietDeeds (s : Session) : List (Deed String) :=
  match s.source with
  | .dial => [.setLog []]
  | .machine _ => [.setClock (s.stack.clock.add stepTime), .setLog []]

def proceedDeeds (s : Session) (m : Move) : List (Deed String) :=
  s.quietDeeds ++ s.quiet.runDeeds m.walk m.sharing (m.number.getD s.stack.depth) m.command

def proceedAll (s : Session) (moves : List Move) : Session := moves.foldl proceed s

/-- All deeds of a session, from its beginning on. -/
def deeds (s : Session) (moves : List Move) : List (Deed String) :=
  loopDeeds proceed proceedDeeds s moves

theorem quiet_eq_after (s : Session) : s.quiet.stack = s.stack.after s.quietDeeds := by
  unfold quiet tick quietDeeds
  cases s.source <;> rfl

theorem proceed_eq_after (s : Session) (m : Move) :
    (s.proceed m).stack = s.stack.after (s.proceedDeeds m) := by
  rw [proceed, run_eq_after, proceedDeeds, after_append, quiet_eq_after]

theorem proceedAll_eq_after (s : Session) (moves : List Move) :
    (s.proceedAll moves).stack = s.stack.after (s.deeds moves) :=
  foldl_eq_after _ _ (·.stack) proceed_eq_after s moves

end Session

end LiveTracks
