import LiveTracks.Proofs.Run

/-!
# Deeds

Everything that happens to a stack is a series of deeds: a report is made, a track is dropped, a camera is
forgotten, something is logged, the clock is set, a report is armed. The deeds of a call are written down as
the call is carried out, those of its sweep and of the armed report among them, and doing them one after the
other is the call (`call_eq_after`). So a history tells what was really done, and in which order.
-/

namespace LiveTracks

variable {P : Type}

inductive Deed (P : Type) where
  | report (number : Nat) (report : Report P)
  | drop (number : Nat) (camera : String) (track : Int64)
  /-- A dropping of a sweep, which finds the track as it is and reports it. -/
  | reap (number : Nat) (camera : String) (track : Int64) (found : Expired P)
  | forget (number : Nat) (camera : String)
  | log (events : List Event)
  | setLog (events : List Event)
  | setClock (now : Instant)
  | setArmed (armed : Option (Report P))
deriving DecidableEq

namespace Stack

def perform (s : Stack P) : Deed P → Stack P
  | .report k r => (s.registerAt k r).1
  | .drop k camera track => s.dropAt k camera track
  | .reap k camera track _ => s.dropAt k camera track
  | .forget k camera => s.forgetAt k camera
  | .log events => s.logs events
  | .setLog log => { s with log }
  | .setClock clock => { s with clock }
  | .setArmed armed => { s with armed }

def after (s : Stack P) (deeds : List (Deed P)) : Stack P := deeds.foldl perform s

@[simp] theorem after_nil (s : Stack P) : s.after [] = s := rfl

@[simp] theorem after_cons (s : Stack P) (d : Deed P) (deeds : List (Deed P)) :
    s.after (d :: deeds) = (s.perform d).after deeds := rfl

theorem after_append (s : Stack P) (a b : List (Deed P)) :
    s.after (a ++ b) = (s.after a).after b := List.foldl_append

/-! ### Loops -/

section Loop

variable {σ α : Type} (f : σ → α → σ) (deeds : σ → α → List (Deed P))

/-- The deeds of a loop, each round of which has the deeds that are given. -/
def loopDeeds : σ → List α → List (Deed P)
  | _, [] => []
  | acc, x :: l => deeds acc x ++ loopDeeds (f acc x) l

theorem foldl_eq_after (stack : σ → Stack P)
    (h : ∀ acc x, stack (f acc x) = (stack acc).after (deeds acc x)) (acc : σ) (l : List α) :
    stack (l.foldl f acc) = (stack acc).after (loopDeeds f deeds acc l) := by
  induction l generalizing acc with
  | nil => rfl
  | cons x l ih => rw [List.foldl_cons, ih, h, loopDeeds, after_append]

end Loop

/-! ### Removals -/

def fireDeeds (s : Stack P) (k : Nat) : List (Deed P) :=
  if k = 0 then [] else
    match s.armed with
    | some r => [.setArmed none, .report s.depth r]
    | none => []

def removeDeeds (s : Stack P) (k : Nat) (camera : String) (track : Int64) : List (Deed P) :=
  .drop k camera track :: (s.dropAt k camera track).fireDeeds k

def clearDeeds (s : Stack P) (k : Nat) (camera : String) : List (Deed P) :=
  .forget k camera :: (s.forgetAt k camera).fireDeeds k

theorem fireAbove_eq_after (s : Stack P) (k : Nat) : s.fireAbove k = s.after (s.fireDeeds k) := by
  unfold fireAbove fireDeeds fire
  by_cases hk : k = 0
  · rw [if_pos hk, if_pos hk, after_nil]
  · rw [if_neg hk, if_neg hk]
    cases s.armed with
    | none => rfl
    | some r => rfl

theorem removeAt_eq_after (s : Stack P) (k : Nat) (camera : String) (track : Int64) :
    s.removeAt k camera track = s.after (s.removeDeeds k camera track) := by
  rw [removeAt_eq, fireAbove_eq_after]
  rfl

theorem clearAt_eq_after (s : Stack P) (k : Nat) (camera : String) :
    s.clearAt k camera = s.after (s.clearDeeds k camera) := by
  rw [clearAt_eq, fireAbove_eq_after]
  rfl

/-! ### Sweeps -/

/-- Why a sweep would drop the track of a row that it visits, with the number that names the track. -/
def due? (s : Stack P) (k : Nat) (policy : Policy) (now : Instant) (c : CameraId)
    (row : Entry Lifetime) : Option (Int64 × Reason) :=
  row.track.toRaw?.bind fun number =>
    ((s.layer? k).bind (·.lifetime? c.text number)).bind fun life =>
      (policy.evaluate life now).map (number, ·)

def visitDeeds (k : Nat) (policy : Policy) (now : Instant) (c : CameraId)
    (acc : Stack P × List (Expired P)) (row : Entry Lifetime) : List (Deed P) :=
  match acc.1.due? k policy now c row with
  | none => []
  | some (number, reason) =>
    match acc.1.get? c.text number with
    | none => acc.1.removeDeeds k c.text number
    | some entry =>
      .reap k c.text number ⟨entry, reason⟩ :: (acc.1.dropAt k c.text number).fireDeeds k ++
        [.log [.expired ⟨c, row.track⟩ reason]]

def cameraDeeds (k : Nat) (w : Walk) (policy : Policy) (now : Instant)
    (acc : Stack P × List (Expired P)) (c : CameraId) : List (Deed P) :=
  loopDeeds (visitRow k policy now c) (visitDeeds k policy now c) acc
    (w.rows c (((acc.1.layer? k).map (·.rows.entriesOf c)).getD []))

def sweepDeeds (s : Stack P) (k : Nat) (w : Walk) (mine : CameraId → Bool) : List (Deed P) :=
  match s.layer? k with
  | none => []
  | some l =>
    loopDeeds (visitCamera k w l.policy s.clock) (cameraDeeds k w l.policy s.clock) (s, [])
      ((w.cameras l.rows.cameras).filter mine)

theorem visitRow_eq_after (k : Nat) (policy : Policy) (now : Instant) (c : CameraId)
    (acc : Stack P × List (Expired P)) (row : Entry Lifetime) :
    (visitRow k policy now c acc row).1 = acc.1.after (visitDeeds k policy now c acc row) := by
  unfold visitRow visitDeeds due?
  cases row.track.toRaw? with
  | none => rfl
  | some number =>
    cases hl : (acc.1.layer? k).bind (·.lifetime? c.text number) with
    | none => simp [hl]
    | some life =>
      cases he : policy.evaluate life now with
      | none => simp [hl, he]
      | some reason =>
        cases hg : acc.1.get? c.text number with
        | none => simp [hl, he, hg, removeAt_eq_after]
        | some entry =>
          simp [hl, he, hg, removeAt_eq_after, removeDeeds, after_append, perform]

theorem visitCamera_eq_after (k : Nat) (w : Walk) (policy : Policy) (now : Instant)
    (acc : Stack P × List (Expired P)) (c : CameraId) :
    (visitCamera k w policy now acc c).1 = acc.1.after (cameraDeeds k w policy now acc c) :=
  foldl_eq_after _ _ Prod.fst (visitRow_eq_after k policy now c) acc _

theorem sweepWhere_eq_after (s : Stack P) (k : Nat) (w : Walk) (mine : CameraId → Bool) :
    (s.sweepWhere k w mine).1 = s.after (s.sweepDeeds k w mine) := by
  unfold sweepWhere sweepDeeds
  cases s.layer? k with
  | none => rfl
  | some l => exact foldl_eq_after _ _ Prod.fst (visitCamera_eq_after k w l.policy s.clock) (s, []) _

/-! ### Calls -/

def partDeeds (s : Stack P) (k : Nat) (w : Walk) (sharing : Sharing) (p n : Nat) : List (Deed P) :=
  s.sweepDeeds k w fun c => sharing.part (max n 1) c == p

def callDeeds (s : Stack P) (w : Walk) (sharing : Sharing) (k : Nat) : Call P → List (Deed P)
  | .register r => [.report k r]
  | .remove camera track => s.removeDeeds k camera track
  | .clear camera => s.clearDeeds k camera
  | .sweep => s.sweepDeeds k w fun _ => true
  | .sweepPart part parts => s.partDeeds k w sharing part parts
  | .setClock now => [.setClock now]
  | .arm r => [.setArmed (some r)]
  | .get _ _ | .getByCamera _ | .count _ | .census => []

theorem sweepPart_eq_after (s : Stack P) (k : Nat) (w : Walk) (sharing : Sharing) (p n : Nat) :
    (s.sweepPart k w sharing p n).1 = s.after (s.partDeeds k w sharing p n) :=
  s.sweepWhere_eq_after k w _

theorem call_eq_after (s : Stack P) (w : Walk) (sharing : Sharing) (k : Nat) (c : Call P) :
    (s.call w sharing k c).1 = s.after (s.callDeeds w sharing k c) := by
  cases c with
  | register r =>
    have hr : (s.registerAt k r).1 = s.after [.report k r] := rfl
    rw [callDeeds, ← hr, call]
    split <;> simp_all
  | remove camera track => exact s.removeAt_eq_after k camera track
  | clear camera => exact s.clearAt_eq_after k camera
  | sweep => exact s.sweepWhere_eq_after k w _
  | sweepPart part parts => exact s.sweepPart_eq_after k w sharing part parts
  | setClock | arm | get | getByCamera | count | census => rfl

end Stack

end LiveTracks
