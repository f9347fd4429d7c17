import LiveTracks.Proofs.Listing
import LiveTracks.Service

/-!
# A service under way

A sweeper sweeps its share of the cameras in one go, and then it hands over what it has dropped, one track at a
time; only when it has none left it sweeps again. Between two of its turns anybody else may have turns. The workers
of a crew are such sweepers, and so is whoever has the service sweep all cameras once. Turns of one sweeper that
follow each other are the rounds of `Service.round` (`ofService_round`), and somebody who joins the sweepers for one
round of all cameras does what `Service.sweepOnce` does (`run_joined`).
-/

namespace LiveTracks

variable {σ P : Type}

/-- A sweeper, with what it has dropped and not yet handed over. It is lost once the finisher has panicked. -/
structure Sweeper (P : Type) where
  part : Nat
  parts : Nat
  batch : List (Expired P) := []
  lost : Bool := false

structure Underway (σ P : Type) where
  stack : Stack P
  finisher : σ
  sweepers : List (Sweeper P)

/-! ### Handing over one by one -/

namespace Stack

theorem handOver_cons (f : Finisher σ P) (state : σ) (s : Stack P) (x : Expired P) (rest : List (Expired P)) :
    s.handOver f state (x :: rest) =
      let (state', s', lasted) := s.handOver f state [x]
      if lasted then s'.handOver f state' rest else (state', s', false) := by
  cases ho : (f state x).2.outcome <;> simp [handOver, ho]

end Stack

namespace Underway

/-- Sweeper `i` does what it has to do next. -/
def turn (f : Finisher σ P) (sharing : Sharing) (u : Underway σ P) (i : Nat) (w : Walk) : Underway σ P :=
  match u.sweepers[i]? with
  | none => u
  | some sweeper =>
    if sweeper.lost then u
    else
      match sweeper.batch with
      | [] =>
        let (stack, found) := u.stack.sweepPart u.stack.depth w sharing sweeper.part sweeper.parts
        { u with stack, sweepers := u.sweepers.set i { sweeper with batch := found } }
      | x :: rest =>
        let (finisher, stack, lasted) := u.stack.handOver f u.finisher [x]
        ⟨stack, finisher,
          u.sweepers.set i { sweeper with batch := if lasted then rest else [], lost := !lasted }⟩

def run (f : Finisher σ P) (sharing : Sharing) (u : Underway σ P) (turns : List (Nat × Walk)) : Underway σ P :=
  turns.foldl (fun u t => u.turn f sharing t.1 t.2) u

def ofService (v : Service σ P) : Underway σ P where
  stack := v.stack
  finisher := v.finisher
  sweepers := v.crew.workers.mapIdx fun i worker => ⟨i, v.crew.size, [], decide (worker = .panicked)⟩

variable (f : Finisher σ P) (sharing : Sharing) {u : Underway σ P} {i : Nat} {sweeper : Sweeper P}

theorem turn_of_none (h : u.sweepers[i]? = none) (w : Walk) : u.turn f sharing i w = u := by
  simp only [turn, h]

theorem turn_of_lost (h : u.sweepers[i]? = some sweeper) (hlost : sweeper.lost = true) (w : Walk) :
    u.turn f sharing i w = u := by
  simp only [turn, h, hlost, if_true]

theorem turn_of_idle (h : u.sweepers[i]? = some sweeper) (hlost : sweeper.lost = false) (hbatch : sweeper.batch = [])
    (w : Walk) :
    u.turn f sharing i w =
      let (stack, found) := u.stack.sweepPart u.stack.depth w sharing sweeper.part sweeper.parts
      { u with stack, sweepers := u.sweepers.set i { sweeper with batch := found } } := by
  simp only [turn, h, hlost, hbatch, Bool.false_eq_true, if_false]

theorem turn_of_batch (h : u.sweepers[i]? = some sweeper) (hlost : sweeper.lost = false) {x : Expired P}
    {rest : List (Expired P)} (hbatch : sweeper.batch = x :: rest) (w : Walk) :
    u.turn f sharing i w =
      let (finisher, stack, lasted) := u.stack.handOver f u.finisher [x]
      ⟨stack, finisher,
        u.sweepers.set i { sweeper with batch := if lasted then rest else [], lost := !lasted }⟩ := by
  simp only [turn, h, hlost, hbatch, Bool.false_eq_true, if_false]

/-- The ways in which a turn of sweeper `i` can go. -/
inductive Turned (u : Underway σ P) (i : Nat) (w : Walk) : Underway σ P → Prop where
  | idle (h : ∀ sweeper, u.sweepers[i]? = some sweeper → sweeper.lost = true) : Turned u i w u
  | swept {sweeper : Sweeper P} {stack : Stack P} {found : List (Expired P)} (h : u.sweepers[i]? = some sweeper)
      (hlost : sweeper.lost = false) (hbatch : sweeper.batch = [])
      (hsweep : u.stack.sweepPart u.stack.depth w sharing sweeper.part sweeper.parts = (stack, found)) :
      Turned u i w { u with stack, sweepers := u.sweepers.set i { sweeper with batch := found } }
  | handed {sweeper : Sweeper P} {x : Expired P} {rest : List (Expired P)} {finisher : σ} {stack : Stack P}
      {lasted : Bool} (h : u.sweepers[i]? = some sweeper) (hlost : sweeper.lost = false)
      (hbatch : sweeper.batch = x :: rest) (hhanded : u.stack.handOver f u.finisher [x] = (finisher, stack, lasted)) :
      Turned u i w
        ⟨stack, finisher, u.sweepers.set i { sweeper with batch := if lasted then rest else [], lost := !lasted }⟩

theorem turned (u : Underway σ P) (i : Nat) (w : Walk) : Turned f sharing u i w (u.turn f sharing i w) := by
  cases h : u.sweepers[i]? with
  | none =>
    rw [turn_of_none f sharing h]
    refine .idle fun sweeper hs => ?_
    rw [h] at hs
    cases hs
  | some sweeper =>
    cases hlost : sweeper.lost with
    | true =>
      rw [turn_of_lost f sharing h hlost]
      refine .idle fun sweeper' hs => ?_
      rw [h] at hs
      cases hs
      exact hlost
    | false =>
      cases hbatch : sweeper.batch with
      | nil =>
        rw [turn_of_idle f sharing h hlost hbatch]
        exact .swept h hlost hbatch rfl
      | cons x rest =>
        rw [turn_of_batch f sharing h hlost hbatch]
        exact .handed h hlost hbatch rfl

/-! ### What is in hand -/

/-- What has been dropped and not yet handed over. -/
def inHand (u : Underway σ P) : List (Expired P) := u.sweepers.flatMap (·.batch)

section InHand

variable {sweepers : List (Sweeper P)}

theorem perm_batches_of_swept (h : sweepers[i]? = some sweeper) (hbatch : sweeper.batch = []) {laden : Sweeper P}
    {found : List (Expired P)} (hladen : laden.batch = found) :
    ((sweepers.set i laden).flatMap (·.batch)).Perm (sweepers.flatMap (·.batch) ++ found) :=
  perm_flatMap_set h (.of_eq (by rw [hbatch, hladen, List.nil_append]))

theorem perm_batches_of_handed (h : sweepers[i]? = some sweeper) {x : Expired P} {rest : List (Expired P)}
    (hbatch : sweeper.batch = x :: rest) {relieved : Sweeper P} (hrelieved : relieved.batch = rest) :
    (sweepers.flatMap (·.batch)).Perm ((sweepers.set i relieved).flatMap (·.batch) ++ [x]) := by
  obtain ⟨hlt, hget⟩ := List.getElem?_eq_some_iff.1 h
  have hback : (sweepers.set i relieved).set i sweeper = sweepers := by
    rw [List.set_set, ← hget, List.set_getElem_self]
  have hself : (sweepers.set i relieved)[i]? = some relieved := List.getElem?_set_self hlt
  have hgrown : sweeper.batch.Perm (relieved.batch ++ [x]) := by
    rw [hbatch, hrelieved]
    exact (List.perm_append_singleton x rest).symm
  have hperm := perm_flatMap_set (f := Sweeper.batch) hself hgrown
  rwa [hback] at hperm

end InHand

/-! ### The turns of one round -/

theorem run_of_lost (h : u.sweepers[i]? = some sweeper) (hlost : sweeper.lost = true) (w : Walk) (n : Nat) :
    u.run f sharing (List.replicate n (i, w)) = u := by
  induction n with
  | zero => rfl
  | succ n ih =>
    rw [List.replicate_succ, run, List.foldl_cons, turn_of_lost f sharing h hlost]
    exact ih

theorem run_batch (h : u.sweepers[i]? = some sweeper) (hlost : sweeper.lost = false) (w : Walk) :
    u.run f sharing (List.replicate sweeper.batch.length (i, w)) =
      let (finisher, stack, lasted) := u.stack.handOver f u.finisher sweeper.batch
      ⟨stack, finisher, u.sweepers.set i { sweeper with batch := [], lost := !lasted }⟩ := by
  obtain ⟨batch, hbatch⟩ : ∃ batch, batch = sweeper.batch := ⟨_, rfl⟩
  rw [← hbatch]
  induction batch generalizing u sweeper with
  | nil =>
    obtain ⟨part, parts, batch, lost⟩ := sweeper
    cases hbatch
    cases hlost
    obtain ⟨hi, hs⟩ := List.getElem?_eq_some_iff.1 h
    have hset : u.sweepers.set i ⟨part, parts, [], false⟩ = u.sweepers := by
      rw [← hs, List.set_getElem_self]
    simp only [Stack.handOver, List.length_nil, List.replicate_zero, run, List.foldl_nil, Bool.not_true, hset]
  | cons x rest ih =>
    have hlt := (List.getElem?_eq_some_iff.1 h).1
    have hturn := turn_of_batch f sharing h hlost hbatch.symm w
    rw [Stack.handOver_cons f u.finisher u.stack x rest, List.length_cons, List.replicate_succ, run, List.foldl_cons,
      hturn]
    obtain ⟨finisher, stack, lasted⟩ := u.stack.handOver f u.finisher [x]
    cases lasted with
    | false =>
      let lost : Sweeper P := { sweeper with batch := [], lost := true }
      have hnext : (u.sweepers.set i lost)[i]? = some lost := List.getElem?_set_self hlt
      exact run_of_lost f sharing (u := ⟨stack, finisher, _⟩) hnext rfl w rest.length
    | true =>
      let relieved : Sweeper P := { sweeper with batch := rest, lost := false }
      have hnext : (u.sweepers.set i relieved)[i]? = some relieved := List.getElem?_set_self hlt
      have hrest := ih (u := ⟨stack, finisher, _⟩) hnext rfl rfl
      simp only [List.set_set] at hrest
      exact hrest

/-- A sweep and the handing over of all that it found. -/
theorem run_round (h : u.sweepers[i]? = some sweeper) (hlost : sweeper.lost = false) (hbatch : sweeper.batch = [])
    {w : Walk} {swept : Stack P} {found : List (Expired P)}
    (hsweep : u.stack.sweepPart u.stack.depth w sharing sweeper.part sweeper.parts = (swept, found))
    {finisher : σ} {stack : Stack P} {lasted : Bool}
    (hhanded : swept.handOver f u.finisher found = (finisher, stack, lasted)) :
    u.run f sharing (List.replicate (found.length + 1) (i, w)) =
      ⟨stack, finisher, u.sweepers.set i { sweeper with batch := [], lost := !lasted }⟩ := by
  have hlt := (List.getElem?_eq_some_iff.1 h).1
  have hturn := turn_of_idle f sharing h hlost hbatch w
  let laden : Sweeper P := { sweeper with batch := found }
  have hnext : (u.sweepers.set i laden)[i]? = some laden := List.getElem?_set_self hlt
  have hrest := run_batch f sharing (u := ⟨swept, u.finisher, _⟩) hnext hlost w
  rw [hsweep] at hturn
  simp only [laden, List.set_set, hhanded] at hrest
  rw [List.replicate_succ, run, List.foldl_cons, hturn]
  exact hrest

/-- The rounds of a crew are turns of its workers. -/
theorem ofService_round (v : Service σ P) (i : Nat) (w : Walk) :
    ∃ n, ofService (v.round f w sharing i) = (ofService v).run f sharing (List.replicate n (i, w)) := by
  cases hi : v.crew.workers[i]? with
  | none => exact ⟨0, by rw [Service.round, hi]; rfl⟩
  | some worker =>
    cases worker with
    | panicked => exact ⟨0, by rw [Service.round, hi]; rfl⟩
    | working =>
      have hsweeper : (ofService v).sweepers[i]? = some ⟨i, v.crew.size, [], false⟩ := by
        simp only [ofService, List.getElem?_mapIdx, hi, Option.map_some]
        rfl
      rcases hsweep : v.stack.sweepPart v.stack.depth w sharing i v.crew.size with ⟨swept, found⟩
      rcases hhanded : swept.handOver f v.finisher found with ⟨finisher, stack, lasted⟩
      refine ⟨found.length + 1, ?_⟩
      rw [run_round f sharing hsweeper rfl rfl hsweep hhanded, Service.round, hi]
      simp only [hsweep, hhanded]
      cases lasted with
      | true =>
        have hsame : (ofService v).sweepers.set i ⟨i, v.crew.size, [], false⟩ = (ofService v).sweepers := by
          obtain ⟨hlt, hget⟩ := List.getElem?_eq_some_iff.1 hsweeper
          rw [← hget, List.set_getElem_self]
        exact congrArg (Underway.mk stack finisher) hsame.symm
      | false =>
        simp only [ofService, Crew.lose, Bool.false_eq_true, if_false, List.mapIdx_set]
        rfl

/-- The round of a sweeper that has just joined the others. -/
theorem run_joined (u : Underway σ P) (part parts : Nat) {w : Walk} {swept : Stack P} {found : List (Expired P)}
    (hsweep : u.stack.sweepPart u.stack.depth w sharing part parts = (swept, found)) {finisher : σ} {stack : Stack P}
    {lasted : Bool} (hhanded : swept.handOver f u.finisher found = (finisher, stack, lasted)) :
    ({ u with sweepers := u.sweepers ++ [⟨part, parts, [], false⟩] } : Underway σ P).run f sharing
        (List.replicate (found.length + 1) (u.sweepers.length, w)) =
      ⟨stack, finisher, u.sweepers ++ [⟨part, parts, [], !lasted⟩]⟩ := by
  have hlast : (u.sweepers ++ [⟨part, parts, [], false⟩])[u.sweepers.length]? = some ⟨part, parts, [], false⟩ :=
    List.getElem?_concat_length
  have hround := run_round f sharing (u := { u with sweepers := u.sweepers ++ [⟨part, parts, [], false⟩] }) hlast rfl
    rfl hsweep hhanded
  rw [hround]
  simp

end Underway

end LiveTracks
