import LiveTracks.Text.Digits

/-!
# Durations and instants

Both are counted in whole nanoseconds. `Duration.text` writes a duration in the largest of the units
s, ms, µs and ns that fits, with the exact fraction and no zero at its end.
-/

namespace LiveTracks

/-- A length of time. -/
structure Duration where
  nanos : Nat
deriving DecidableEq, Repr

/-- A reading of the clock: the time since a base that all readings share. -/
structure Instant where
  nanos : Nat
deriving DecidableEq, Repr

def Instant.add (t : Instant) (d : Duration) : Instant := ⟨t.nanos + d.nanos⟩

namespace Duration

/-- The time from one instant to another; no time at all if the second lies before the first. -/
def between (earlier later : Instant) : Duration := ⟨later.nanos - earlier.nanos⟩

/-! ### Units -/

def nanosPerSecond : Nat := 1000000000

def nanosPerMilli : Nat := 1000000

def nanosPerMicro : Nat := 1000

def ofSeconds (n : Nat) : Duration := ⟨n * nanosPerSecond⟩

def ofMillis (n : Nat) : Duration := ⟨n * nanosPerMilli⟩

def ofParts (seconds nanos : Nat) : Duration := ⟨seconds * nanosPerSecond + nanos⟩

def seconds (d : Duration) : Nat := d.nanos / nanosPerSecond

def subsecNanos (d : Duration) : Nat := d.nanos % nanosPerSecond

theorem seconds_ofParts {seconds nanos : Nat} (h : nanos < nanosPerSecond) :
    (ofParts seconds nanos).seconds = seconds := by
  simp only [Duration.seconds, ofParts, nanosPerSecond] at *
  omega

theorem subsecNanos_ofParts {seconds nanos : Nat} (h : nanos < nanosPerSecond) :
    (ofParts seconds nanos).subsecNanos = nanos := by
  simp only [subsecNanos, ofParts, nanosPerSecond] at *
  omega

theorem ofParts_seconds_subsecNanos (d : Duration) : ofParts d.seconds d.subsecNanos = d := by
  simp only [ofParts, seconds, subsecNanos, Nat.div_add_mod']

/-! ### Text -/

/-- A part of a unit in decimal places, `places` of them less the zeros at the end, behind a point;
nothing if the part is zero. -/
def fraction (places part : Nat) : List Char :=
  match Text.dropZeros (Text.padZeros places (Nat.toDigits 10 part)) with
  | [] => []
  | ds => '.' :: ds

/-- A number of nanoseconds counted in a unit of `10 ^ places` of them. -/
def inUnit (places : Nat) (unit : String) (nanos : Nat) : String :=
  toString (nanos / Nat.pow 10 places) ++
    String.ofList (fraction places (nanos % Nat.pow 10 places)) ++ unit

/-- A duration in the largest unit of which it holds at least one; no time at all is `0ns`. -/
def text (d : Duration) : String :=
  if nanosPerSecond ≤ d.nanos then inUnit 9 "s" d.nanos
  else if nanosPerMilli ≤ d.nanos then inUnit 6 "ms" d.nanos
  else if nanosPerMicro ≤ d.nanos then inUnit 3 "µs" d.nanos
  else inUnit 0 "ns" d.nanos

example : (ofParts 1 500000000).text = "1.5s" := by decide +kernel
example : (Duration.mk 999999999).text = "999.999999ms" := by decide +kernel
example : (Duration.mk 0).text = "0ns" := by decide +kernel

end Duration

end LiveTracks
