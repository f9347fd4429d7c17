import LiveTracks.Stack

/-!
# Sweeps

Nothing expires by itself. A sweep of a layer visits its rows, camera by camera, and drops every
track whose row has passed a limit of the layer's policy, down to the store; what the store still
held of those tracks is reported. A row whose entry is gone is dropped without a report.

In which order a sweep visits is left open (`Walk`), and so is how the cameras are shared out among
several sweepers (`Sharing`): a sharing gives each camera to exactly one of them.
-/

namespace LiveTracks

/-- A track that a sweep dropped, as it was last reported. -/
structure Expired (P : Type) where
  entry : Entry P
  reason : Reason
deriving DecidableEq

/-- The order in which a sweep visits cameras, and the rows of each. -/
structure Walk where
  cameras : List CameraId → List CameraId
  rows : CameraId → List (Entry Lifetime) → List (Entry Lifetime)
  cameras_perm : ∀ l, (cameras l).Perm l
  rows_perm : ∀ c l, (rows c l).Perm l

def Walk.ascending : Walk where
  cameras l := l
  rows _ l := l
  cameras_perm _ := .refl _
  rows_perm _ _ := .refl _

/-- How the cameras are shared out among so many sweepers. -/
structure Sharing where
  part : Nat → CameraId → Nat
  part_lt : ∀ n c, 0 < n → part n c < n

def Sharing.byName : Sharing where
  part n c := c.text.toList.foldr (fun ch m => ch.toNat + m) 0 % n
  part_lt _ _ h := Nat.mod_lt _ h

namespace Stack

variable {P : Type}

/-- Visits a row of camera `c` in layer `k`. The row is looked up again, since it may have changed
after the list of rows was taken. The entry is taken before its rows are dropped, and it is reported
once it is gone. -/
def visitRow (k : Nat) (policy : Policy) (now : Instant) (c : CameraId)
    (acc : Stack P × List (Expired P)) (row : Entry Lifetime) : Stack P × List (Expired P) :=
  match row.track.toRaw? with
  | none => acc
  | some number =>
    match (acc.1.layer? k).bind (·.lifetime? c.text number) with
    | none => acc
    | some life =>
      match policy.evaluate life now with
      | none => acc
      | some reason =>
        let s := acc.1.removeAt k c.text number
        match acc.1.get? c.text number with
        | none => (s, acc.2)
        | some entry => (s.logs [.expired ⟨c, row.track⟩ reason], acc.2 ++ [⟨entry, reason⟩])

/-- Visits the rows that camera `c` has in layer `k`. -/
def visitCamera (k : Nat) (w : Walk) (policy : Policy) (now : Instant)
    (acc : Stack P × List (Expired P)) (c : CameraId) : Stack P × List (Expired P) :=
  let rows := ((acc.1.layer? k).map (·.rows.entriesOf c)).getD []
  (w.rows c rows).foldl (visitRow k policy now c) acc

/-- Sweeps some cameras of layer `k`: what is left, and what was dropped. A number that is no layer
has nothing to sweep. -/
def sweepWhere (s : Stack P) (k : Nat) (w : Walk) (mine : CameraId → Bool) :
    Stack P × List (Expired P) :=
  match s.layer? k with
  | none => (s, [])
  | some l =>
    ((w.cameras l.rows.cameras).filter mine).foldl (visitCamera k w l.policy s.clock) (s, [])

/-- Sweeps the share of sweeper `p` out of `n`. No sweepers at all count as one. -/
def sweepPart (s : Stack P) (k : Nat) (w : Walk) (sharing : Sharing) (p n : Nat) :
    Stack P × List (Expired P) :=
  s.sweepWhere k w fun c => sharing.part (max n 1) c == p

def sweep (s : Stack P) (k : Nat) (w : Walk) : Stack P × List (Expired P) :=
  s.sweepWhere k w fun _ => true

theorem sweepPart_one (s : Stack P) (k : Nat) (w : Walk) (sharing : Sharing) :
    s.sweepPart k w sharing 0 1 = s.sweep k w := by
  have h : (fun c => sharing.part (max 1 1) c == 0) = fun _ => true := by
    funext c
    have := sharing.part_lt 1 c Nat.one_pos
    simp only [Nat.max_self, beq_iff_eq]
    omega
  unfold sweepPart sweep
  rw [h]

theorem sweepPart_of_le (s : Stack P) (k : Nat) (w : Walk) (sharing : Sharing) {p n : Nat}
    (h : max n 1 ≤ p) : s.sweepPart k w sharing p n = (s, []) := by
  have hm : (fun c => sharing.part (max n 1) c == p) = fun _ => false := by
    funext c
    have := sharing.part_lt (max n 1) c (Nat.le_max_right n 1)
    simp only [beq_eq_false_iff_ne, ne_eq]
    omega
  unfold sweepPart sweepWhere
  rw [hm]
  cases s.layer? k with
  | none => rfl
  | some l =>
    have hf : (w.cameras l.rows.cameras).filter (fun _ => false) = [] :=
      List.filter_eq_nil_iff.2 (by simp)
    simp only [hf, List.foldl_nil]

end Stack

end LiveTracks
