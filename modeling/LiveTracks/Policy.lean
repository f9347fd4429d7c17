import LiveTracks.Duration

/-!
# Expiry policies

A track is dropped once it has not been reported for longer than one limit, or once it has existed
for longer than another, however often it is reported. `Policy.evaluate` decides which of the two
limits, if any, a lifetime has passed.
-/

namespace LiveTracks

/-- Why a track is dropped. -/
inductive Reason where
  | inactive
  | maxAge
deriving DecidableEq, Repr

def Reason.text : Reason → String
  | .inactive => "inactive"
  | .maxAge => "max age"

/-- When a track was first and last reported. -/
structure Lifetime where
  firstSeen : Instant
  lastSeen : Instant
deriving DecidableEq, Repr

/-- The two limits of a track's life. -/
structure Policy where
  lostTtl : Duration
  activeTtl : Duration
deriving DecidableEq, Repr

namespace Policy

/-- Which limit a lifetime has passed at `now`. A limit that is only just reached is not passed; a
reading of the clock before a report counts as no time since it; when both limits are passed,
inactivity is the reason given. -/
def evaluate (p : Policy) (life : Lifetime) (now : Instant) : Option Reason :=
  if p.lostTtl.nanos < (Duration.between life.lastSeen now).nanos then some .inactive
  else if p.activeTtl.nanos < (Duration.between life.firstSeen now).nanos then some .maxAge
  else none

theorem evaluate_eq_inactive_iff {p : Policy} {life : Lifetime} {now : Instant} :
    p.evaluate life now = some .inactive ↔ p.lostTtl.nanos < now.nanos - life.lastSeen.nanos := by
  unfold evaluate
  split
  · simp_all [Duration.between]
  · split <;> simp_all [Duration.between]

theorem evaluate_eq_maxAge_iff {p : Policy} {life : Lifetime} {now : Instant} :
    p.evaluate life now = some .maxAge ↔
      now.nanos - life.lastSeen.nanos ≤ p.lostTtl.nanos ∧
        p.activeTtl.nanos < now.nanos - life.firstSeen.nanos := by
  unfold evaluate
  split
  · simp_all [Duration.between]
    omega
  · split <;> simp_all [Duration.between]

theorem evaluate_eq_none_iff {p : Policy} {life : Lifetime} {now : Instant} :
    p.evaluate life now = none ↔
      now.nanos - life.lastSeen.nanos ≤ p.lostTtl.nanos ∧
        now.nanos - life.firstSeen.nanos ≤ p.activeTtl.nanos := by
  unfold evaluate
  split
  · simp_all [Duration.between]
    omega
  · split
    · simp_all [Duration.between]
      omega
    · simp_all [Duration.between]

theorem evaluate_ne_none_of_le {p : Policy} {life : Lifetime} {now later : Instant}
    (h : now.nanos ≤ later.nanos) (he : p.evaluate life now ≠ none) :
    p.evaluate life later ≠ none := by
  rw [ne_eq, evaluate_eq_none_iff] at *
  omega

end Policy

end LiveTracks
