import LiveTracks.Policy

/-!
# Settings

The four numbers that a deployment may choose, what follows from them, and their written form.
-/

namespace LiveTracks

/-- How long tracks live and how they are swept. -/
structure Settings where
  lostTtlSecs : UInt64 := 3
  activeTtlSecs : UInt64 := 30
  sweepIntervalMs : UInt64 := 1000
  numWorkers : Option UInt64 := none
deriving DecidableEq, Repr

namespace Settings

def default : Settings := {}

instance : Inhabited Settings := ⟨default⟩

def processorsPerWorker : Nat := 4

/-- A field of the settings. -/
inductive Field where
  | lostTtlSecs
  | activeTtlSecs
  | sweepIntervalMs
  | numWorkers
deriving DecidableEq, Repr

def Field.name : Field → String
  | lostTtlSecs => "lost_ttl_secs"
  | activeTtlSecs => "active_ttl_secs"
  | sweepIntervalMs => "sweep_interval_ms"
  | numWorkers => "num_workers"

def Field.all : List Field := [lostTtlSecs, activeTtlSecs, sweepIntervalMs, numWorkers]

/-! ### What follows from settings -/

def policy (s : Settings) : Policy :=
  ⟨Duration.ofSeconds s.lostTtlSecs.toNat, Duration.ofSeconds s.activeTtlSecs.toNat⟩

/-- The pause between two sweeps; no pause at all counts as one millisecond. -/
def sweepInterval (s : Settings) : Duration :=
  Duration.ofMillis (max s.sweepIntervalMs.toNat 1)

/-- The number of workers that was chosen, if any; none at all count as one. -/
def chosenWorkers? (s : Settings) : Option Nat := s.numWorkers.map fun n => max n.toNat 1

def workers (s : Settings) (processors : Nat) : Nat :=
  s.chosenWorkers?.getD (max (processors / processorsPerWorker) 1)

/-! ### Which settings are accepted -/

/-- What is unacceptable in settings. -/
inductive Defect where
  | noInterval
  | noWorkers
deriving DecidableEq, Repr

def Defect.text : Defect → String
  | noInterval => "sweep_interval_ms must be >= 1"
  | noWorkers => "num_workers must be >= 1"

def defect? (s : Settings) : Option Defect :=
  if s.sweepIntervalMs = 0 then some .noInterval
  else if s.numWorkers = some 0 then some .noWorkers
  else none

/-! ### Written settings -/

def workersText : Option UInt64 → String
  | some n => toString n.toNat
  | none => "null"

def valueText (s : Settings) : Field → String
  | .lostTtlSecs => toString s.lostTtlSecs.toNat
  | .activeTtlSecs => toString s.activeTtlSecs.toNat
  | .sweepIntervalMs => toString s.sweepIntervalMs.toNat
  | .numWorkers => workersText s.numWorkers

def memberText (s : Settings) (f : Field) : String :=
  "\x22" ++ f.name ++ "\x22:" ++ s.valueText f

def toJson (s : Settings) : String :=
  "\x7b" ++ ",".intercalate (Field.all.map s.memberText) ++ "\x7d"

end Settings

end LiveTracks
