import Mathlib.Data.List.Nodup
import LiveTracks.Proofs.SweepExactness

/-!
# Sweeping in shares

The sweeps of several sweepers, one after the other, drop and report what one sweep of all cameras does,
whatever their order is: a sweep of one share leaves the tracks of all other cameras as they were
(`expired?_left`), so each sweep finds of its own cameras what the whole sweep would have found
(`sweepShares_of_unarmed`), and every camera is in exactly one share (`sweepShares_eq_sweep`).
-/

namespace LiveTracks

variable {P : Type}

namespace Stack

/-- Sweeps one share after the other, each of them in an order of visits of its own: what is left, and what
each of the sweeps found. -/
def sweepShares (s : Stack P) (k : Nat) (walks : Nat → Walk) (sharing : Sharing) (n : Nat) :
    List Nat → Stack P × List (List (Expired P))
  | [] => (s, [])
  | p :: order =>
    let (s, found) := s.sweepPart k (walks p) sharing p n
    let (s, rest) := sweepShares s k walks sharing n order
    (s, found :: rest)

/-! ### What one sweep leaves to the others -/

/-- The stack without the expired tracks of the cameras that `mine` picks. -/
def left (s : Stack P) (k : Nat) (mine : CameraId → Bool) : Stack P :=
  s.without k fun key => mine key.camera && (s.verdict? k key).isSome

theorem without_logs (s : Stack P) (events : List Event) (k : Nat) (gone : Key → Bool) :
    (s.logs events).without k gone = (s.without k gone).logs events := rfl

theorem logs_logs (s : Stack P) (a b : List Event) : (s.logs a).logs b = s.logs (a ++ b) := by
  simp only [logs, List.append_assoc]

theorem layers_logs (s : Stack P) (events : List Event) : (s.logs events).layers = s.layers := rfl

theorem named_left {s : Stack P} (hn : ∀ l ∈ s.layers, Named l.rows) (k : Nat) (mine : CameraId → Bool)
    (events : List Event) : ∀ l ∈ ((s.left k mine).logs events).layers, Named l.rows := by
  rw [layers_logs]
  intro l hl
  rcases mem_changeBelow hl with hl | ⟨l', hl', rfl⟩
  · exact hn l hl
  · exact named_without (hn l' hl') _

theorem armed_left (s : Stack P) (k : Nat) (mine : CameraId → Bool) : (s.left k mine).armed = s.armed := by
  rw [left, armed_without]

theorem verdict?_left (s : Stack P) (k : Nat) (mine : CameraId → Bool) (key : Key) :
    (s.left k mine).verdict? k key = if mine key.camera then none else s.verdict? k key := by
  rw [left, verdict?_without]
  cases mine key.camera <;> cases s.verdict? k key <;> rfl

theorem expired?_left (s : Stack P) (k : Nat) (mine : CameraId → Bool) (key : Key) :
    (s.left k mine).expired? k key = if mine key.camera then none else s.expired? k key := by
  unfold expired?
  rw [verdict?_left, left, base_without, Store.find?_without]
  cases mine key.camera <;> cases s.verdict? k key <;> rfl

theorem expired?_logs (s : Stack P) (events : List Event) (k : Nat) (key : Key) :
    (s.logs events).expired? k key = s.expired? k key := by
  simp only [expired?, verdict?_logs, base_logs]

theorem left_left (s : Stack P) (k : Nat) (mine others : CameraId → Bool) :
    (s.left k mine).left k others = s.left k fun c => mine c || others c := by
  rw [left, left, without_without, left]
  congr 1
  funext key
  have hv := s.verdict?_left k mine key
  rw [left] at hv
  rw [hv]
  cases mine key.camera <;> cases others key.camera <;> cases s.verdict? k key <;> rfl

theorem left_logs (s : Stack P) (events : List Event) (k : Nat) (mine : CameraId → Bool) :
    (s.logs events).left k mine = (s.left k mine).logs events := by
  simp only [left, without_logs, verdict?_logs]

/-! ### What the sweeps find between them -/

/-- What sweeps of the shares in `order` have found, each track once and each camera in one of the lists. -/
structure SharedOut (s : Stack P) (k : Nat) (part : CameraId → Nat) (order : List Nat)
    (founds : List (List (Expired P))) : Prop where
  once : (founds.flatten.map (·.entry.key)).Nodup
  found_iff : ∀ x, x ∈ founds.flatten ↔
    part x.entry.camera ∈ order ∧ s.expired? k x.entry.key = some x
  apart : founds.Pairwise fun a b => ∀ x ∈ a, ∀ y ∈ b, x.entry.camera ≠ y.entry.camera

theorem SharedOut.nil (s : Stack P) (k : Nat) (part : CameraId → Nat) : SharedOut s k part [] [] where
  once := List.nodup_nil
  found_iff x := by simp
  apart := .nil

theorem SharedOut.cons {s : Stack P} {k : Nat} {part : CameraId → Nat} {p : Nat} {order : List Nat}
    {found : List (Expired P)} {founds : List (List (Expired P))} (hp : p ∉ order)
    (honce : (found.map (·.entry.key)).Nodup)
    (hfound : ∀ x, x ∈ found ↔ (part x.entry.camera == p) = true ∧ s.expired? k x.entry.key = some x)
    (h : SharedOut (s.left k (part · == p)) k part order founds) :
    SharedOut s k part (p :: order) (found :: founds) := by
  have hothers : ∀ x, x ∈ founds.flatten ↔
      part x.entry.camera ∈ order ∧ s.expired? k x.entry.key = some x := by
    intro x
    rw [h.found_iff, expired?_left]
    refine and_congr_right fun hx => ?_
    have hne : ¬ (part x.entry.key.camera == p) = true := fun he => hp (beq_iff_eq.1 he ▸ hx)
    rw [if_neg hne]
  have hapart : ∀ x ∈ found, ∀ y ∈ founds.flatten, x.entry.camera ≠ y.entry.camera := by
    intro x hx y hy heq
    have hx := beq_iff_eq.1 ((hfound x).1 hx).1
    exact hp (hx ▸ heq ▸ ((hothers y).1 hy).1)
  refine ⟨?_, fun x => ?_, ?_⟩
  · rw [List.flatten_cons, List.map_append, List.nodup_append]
    refine ⟨honce, h.once, fun key hkey key' hkey' heq => ?_⟩
    obtain ⟨x, hx, rfl⟩ := List.mem_map.1 hkey
    obtain ⟨y, hy, rfl⟩ := List.mem_map.1 hkey'
    exact hapart x hx y hy (congrArg Key.camera heq)
  · rw [List.flatten_cons, List.mem_append, hfound, hothers, List.mem_cons, beq_iff_eq, or_and_right]
  · refine List.pairwise_cons.2 ⟨fun founds' hf x hx y hy => ?_, h.apart⟩
    exact hapart x hx y (List.mem_flatten.2 ⟨founds', hf, hy⟩)

theorem sweepPart_of_unarmed {s : Stack P} (ha : s.armed = none) (hn : ∀ l ∈ s.layers, Named l.rows)
    (k : Nat) (w : Walk) (sharing : Sharing) (p n : Nat) :
    ∃ found : List (Expired P),
      s.sweepPart k w sharing p n =
        ((s.left k (sharing.part (max n 1) · == p)).logs (found.map Expired.event), found) ∧
      (found.map (·.entry.key)).Nodup ∧
      ∀ x, x ∈ found ↔
        (sharing.part (max n 1) x.entry.camera == p) = true ∧ s.expired? k x.entry.key = some x :=
  sweepWhere_of_unarmed ha hn k w _

theorem sweepShares_of_unarmed {s : Stack P} (ha : s.armed = none) (hn : ∀ l ∈ s.layers, Named l.rows)
    (k : Nat) (walks : Nat → Walk) (sharing : Sharing) (n : Nat) {order : List Nat} (hd : order.Nodup) :
    ∃ founds : List (List (Expired P)),
      s.sweepShares k walks sharing n order =
        ((s.left k fun c => order.contains (sharing.part (max n 1) c)).logs
          (founds.flatten.map Expired.event), founds) ∧
      SharedOut s k (sharing.part (max n 1)) order founds := by
  induction order generalizing s with
  | nil =>
    refine ⟨[], ?_, SharedOut.nil s k _⟩
    rw [left, without_eq_self] <;> simp [sweepShares]
  | cons p order ih =>
    obtain ⟨hp, hd⟩ := List.nodup_cons.1 hd
    obtain ⟨found, hfirst, honce, hfound⟩ := sweepPart_of_unarmed ha hn k (walks p) sharing p n
    have ha' : ((s.left k (sharing.part (max n 1) · == p)).logs (found.map Expired.event)).armed = none := by
      rw [armed_logs, armed_left, ha]
    obtain ⟨founds, hrest, hshared⟩ := ih ha' (named_left hn k _ _) hd
    refine ⟨found :: founds, ?_, .cons hp honce hfound ⟨hshared.once, ?_, hshared.apart⟩⟩
    · simp only [sweepShares, hfirst, hrest, left_logs, left_left, logs_logs, List.flatten_cons,
        List.map_append, List.contains_cons]
    · intro x
      rw [hshared.found_iff, expired?_logs]

theorem sweep_of_unarmed {s : Stack P} (ha : s.armed = none) (hn : ∀ l ∈ s.layers, Named l.rows) (k : Nat)
    (w : Walk) :
    ∃ found : List (Expired P),
      s.sweep k w = ((s.left k fun _ => true).logs (found.map Expired.event), found) ∧
      (found.map (·.entry.key)).Nodup ∧ ∀ x, x ∈ found ↔ s.expired? k x.entry.key = some x := by
  obtain ⟨found, hs, honce, hfound⟩ := sweepWhere_of_unarmed ha hn k w fun _ => true
  exact ⟨found, hs, honce, fun x => by rw [hfound, and_iff_right rfl]⟩

/-- Sweepers with the shares 0, 1 and so on of all cameras, one after the other in whatever order, leave what
one sweep of all cameras leaves, report the same tracks and log the same events, and no camera is reported by
two of them. There are no other shares, and no sweepers at all count as one. -/
theorem sweepShares_eq_sweep {s : Stack P} (ha : s.armed = none) (hn : ∀ l ∈ s.layers, Named l.rows)
    (k : Nat) (w : Walk) (walks : Nat → Walk) (sharing : Sharing) (n : Nat) {order : List Nat}
    (ho : order.Perm (List.range (max n 1))) :
    let shared := s.sweepShares k walks sharing n order
    let whole := s.sweep k w
    { shared.1 with log := whole.1.log } = whole.1 ∧ shared.1.log.Perm whole.1.log ∧
      shared.2.flatten.Perm whole.2 ∧
      (shared.2.Pairwise fun a b => ∀ x ∈ a, ∀ y ∈ b, x.entry.camera ≠ y.entry.camera) ∧
      (∀ walk p, max n 1 ≤ p → s.sweepPart k walk sharing p n = (s, [])) ∧
      ∀ walk p, s.sweepPart k walk sharing p 0 = s.sweepPart k walk sharing p 1 := by
  intro shared whole
  have hall : ∀ c, sharing.part (max n 1) c ∈ order := fun c =>
    ho.mem_iff.2 (List.mem_range.2 (sharing.part_lt _ c (Nat.le_max_right n 1)))
  obtain ⟨founds, hshared, hfounds⟩ :=
    sweepShares_of_unarmed ha hn k walks sharing n (ho.nodup_iff.2 List.nodup_range)
  obtain ⟨found, hwhole, honce, hfound⟩ := sweep_of_unarmed ha hn k w
  have hmine : (fun c => order.contains (sharing.part (max n 1) c)) = fun _ => true :=
    funext fun c => List.contains_iff_mem.2 (hall c)
  rw [hmine] at hshared
  have hperm : founds.flatten.Perm found := by
    refine (List.perm_ext_iff_of_nodup (List.Nodup.of_map _ hfounds.once)
      (List.Nodup.of_map _ honce)).2 fun x => ?_
    rw [hfounds.found_iff, hfound, and_iff_right (hall x.entry.camera)]
  simp only [shared, whole, hshared, hwhole]
  refine ⟨rfl, (hperm.map _).append_left _, hperm, hfounds.apart, ?_, fun walk p => rfl⟩
  exact fun walk p hp => sweepPart_of_le s k walk sharing hp

/-- Two cameras in different shares, with an expired track each and a third one that is kept. -/
def sharedOutRun : List (Step String) :=
  [.plain 1 (.register ⟨"a", 1, "x"⟩), .plain 1 (.register ⟨"b", 1, "y"⟩),
    .plain 1 (.setClock (.mk 5000000000)), .plain 1 (.register ⟨"a", 2, "z"⟩)]

def sharedOut : Stack String := (ofPolicies [⟨.ofSeconds 3, .ofSeconds 30⟩]).run sharedOutRun

theorem sweepShares_eq_sweep_two :
    (sharedOut.sweepShares 1 (fun _ => .ascending) .byName 2 [1, 0]).2.map (·.map (·.entry.payload)) =
        [["x"], ["y"]] ∧
      (sharedOut.sweepShares 1 (fun _ => .ascending) .byName 2 [1, 0]).2.flatten.Perm
        (sharedOut.sweep 1 .ascending).2 := by
  have hr : sharedOut.Reachable := ⟨_, _, rfl⟩
  have horder : [1, 0].Perm (List.range (max 2 1)) := by decide
  have h := sweepShares_eq_sweep (s := sharedOut) rfl (named_of_reachable hr) 1 .ascending
    (fun _ => .ascending) .byName 2 horder
  exact ⟨by decide +kernel, h.2.2.1⟩

end Stack

end LiveTracks
