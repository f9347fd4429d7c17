import LiveTracks.Json.Skip
import LiveTracks.Settings

/-!
# Reading settings

Settings are read from a JSON object, in which members may be missing, stand in any order or be
unknown, or from a JSON list of the values in the order of the fields, which may end early. What is
missing has its default. `Settings.parse` refuses settings that are not written this way, and those
with a defect.
-/

namespace LiveTracks.Settings

open Json

/-! ### Values -/

/-- The fault of a value of a kind that is not wanted. The value is read as far as a description of
it needs. -/
def mismatch (wanted : Wanted) : Bytes → Fault
  | [] => ⟨.noValue, []⟩
  | b :: s =>
    if b = lettern then describe (readWord ull s) fun _ => .null
    else if b = lettert then describe (readWord rue s) fun _ => .boolean true
    else if b = letterf then describe (readWord alse s) fun _ => .boolean false
    else if b = minus then describe (readNumber true s) Number.found
    else if isDigit b then describe (readNumber false (b :: s)) Number.found
    else if b = quote then describe (readString s) fun d =>
      .string ((String.fromUTF8? ⟨d.toArray⟩).getD "")
    else if b = openList then ⟨.wrongKind .list wanted, b :: s⟩
    else if b = openObject then ⟨.wrongKind .object wanted, b :: s⟩
    else ⟨.noValue, s⟩
where
  describe {α : Type} (x : Reading α) (found : α → Found) : Fault :=
    match x with
    | .ok (a, rest) => ⟨.wrongKind (found a) wanted, rest⟩
    | .error e => e

def toWord (wanted : Wanted) (n : Number) (rest : Bytes) : Reading UInt64 :=
  match n with
  | .natural n => .ok (n, rest)
  | .negative _ => .error ⟨.wrongValue n.found wanted, rest⟩
  | .real _ => .error ⟨.wrongKind n.found wanted, rest⟩

def readWord64 (wanted : Wanted) (s : Bytes) : Reading UInt64 :=
  match skipBlanks s with
  | [] => .error ⟨.endInValue, []⟩
  | b :: s' =>
    if b = minus then (readNumber true s').andThen (toWord wanted)
    else if isDigit b then (readNumber false (b :: s')).andThen (toWord wanted)
    else .error (mismatch wanted (b :: s'))

/-- Reads a number of workers, or `null` for none. -/
def readWorkers (s : Bytes) : Reading (Option UInt64) :=
  match skipBlanks s with
  | [] => .error ⟨.endInValue, []⟩
  | b :: s' =>
    if b = lettern then (readWord ull s').andThen fun _ rest => .ok (none, rest)
    else (readWord64 .size (b :: s')).andThen fun n rest => .ok (some n, rest)

/-! ### Fields -/

/-- The fields that have been read so far. -/
structure Draft where
  lostTtlSecs : Option UInt64 := none
  activeTtlSecs : Option UInt64 := none
  sweepIntervalMs : Option UInt64 := none
  numWorkers : Option (Option UInt64) := none
deriving DecidableEq, Repr

namespace Draft

def has (d : Draft) : Field → Bool
  | .lostTtlSecs => d.lostTtlSecs.isSome
  | .activeTtlSecs => d.activeTtlSecs.isSome
  | .sweepIntervalMs => d.sweepIntervalMs.isSome
  | .numWorkers => d.numWorkers.isSome

def complete (d : Draft) : Settings where
  lostTtlSecs := d.lostTtlSecs.getD default.lostTtlSecs
  activeTtlSecs := d.activeTtlSecs.getD default.activeTtlSecs
  sweepIntervalMs := d.sweepIntervalMs.getD default.sweepIntervalMs
  numWorkers := d.numWorkers.getD default.numWorkers

def readField (d : Draft) (f : Field) (s : Bytes) : Reading Draft :=
  match f with
  | .lostTtlSecs =>
    (readWord64 .word s).andThen fun n s => .ok ({ d with lostTtlSecs := some n }, s)
  | .activeTtlSecs =>
    (readWord64 .word s).andThen fun n s => .ok ({ d with activeTtlSecs := some n }, s)
  | .sweepIntervalMs =>
    (readWord64 .word s).andThen fun n s => .ok ({ d with sweepIntervalMs := some n }, s)
  | .numWorkers =>
    (readWorkers s).andThen fun n s => .ok ({ d with numWorkers := some n }, s)

end Draft

def fieldOf? (name : Bytes) : Option Field :=
  Field.all.find? fun f => bytesOf f.name == name

/-! ### Objects -/

def readColon (s : Bytes) : Reading Unit :=
  match skipBlanks s with
  | [] => .error ⟨.endInObject, []⟩
  | b :: s' => if b = colon then .ok ((), s') else .error ⟨.noColon, s'⟩

/-- The place of a key that was given before: behind the blanks that follow it, and behind the end of
the object if that comes next. -/
def behindKey (s : Bytes) : Bytes :=
  match skipBlanks s with
  | [] => []
  | b :: s' => if b = closeObject then s' else b :: s'

def readMember (d : Draft) (s : Bytes) : Reading Draft :=
  (readString s).andThen fun name s =>
  match fieldOf? name with
  | some f =>
    if d.has f then .error ⟨.duplicateField f.name, behindKey s⟩
    else (readColon s).andThen fun _ s => d.readField f s
  | none =>
    (readColon s).andThen fun _ s =>
    (skipValue s).andThen fun _ s => .ok (d, s)

/-- Reads up to behind the quote that opens the next key, if there is one: `some ()` for a key and
`none` for the end of the object. -/
def readKeyStart (first : Bool) (s : Bytes) : Reading (Option Unit) :=
  match skipBlanks s with
  | [] => .error ⟨.endInObject, []⟩
  | b :: s' =>
    if b = closeObject then .ok (none, s')
    else if first then
      if b = quote then .ok (some (), s') else .error ⟨.keyNotString, s'⟩
    else if b = comma then
      match skipBlanks s' with
      | [] => .error ⟨.endInValue, []⟩
      | b :: s'' =>
        if b = quote then .ok (some (), s'')
        else if b = closeObject then .error ⟨.trailingComma, s''⟩
        else .error ⟨.keyNotString, s''⟩
    else .error ⟨.noObjectComma, s'⟩

/-! ### Lengths -/

theorem length_lt_of_readWord64 {wanted : Wanted} {s r : Bytes} {n : UInt64}
    (h : readWord64 wanted s = .ok (n, r)) : r.length < s.length := by
  have key : ∀ {negative : Bool} {s' : Bytes},
      (readNumber negative s').andThen (toWord wanted) = .ok (n, r) → r.length < s'.length := by
    intro negative s' h
    obtain ⟨x, s1, h1, h⟩ := Reading.andThen_eq_ok_iff.1 h
    have hl := length_lt_of_readNumber h1
    cases x with
    | natural m =>
      injection h with h
      simp only [Prod.mk.injEq] at h
      exact h.2 ▸ hl
    | negative m => cases h
    | real x => cases h
  unfold readWord64 at h
  split at h
  · cases h
  · rename_i b s' hb
    have hl := length_skipBlanks_lt hb
    split at h
    · have := key h
      omega
    · split at h
      · have := key h
        simp only [List.length_cons] at this
        omega
      · cases h

theorem length_le_of_readWorkers {s r : Bytes} {n : Option UInt64}
    (h : readWorkers s = .ok (n, r)) : r.length ≤ s.length := by
  unfold readWorkers at h
  split at h
  · cases h
  · rename_i b s' hb
    have hl := length_skipBlanks_lt hb
    split at h
    · obtain ⟨u, s1, h1, h⟩ := Reading.andThen_eq_ok_iff.1 h
      have h1 := length_le_of_readWord h1
      injection h with h
      simp only [Prod.mk.injEq] at h
      rw [← h.2]
      omega
    · obtain ⟨m, s1, h1, h⟩ := Reading.andThen_eq_ok_iff.1 h
      have h1 := length_lt_of_readWord64 h1
      injection h with h
      simp only [Prod.mk.injEq, List.length_cons] at h h1
      rw [← h.2]
      omega

theorem length_le_of_readField {d d' : Draft} {f : Field} {s r : Bytes}
    (h : d.readField f s = .ok (d', r)) : r.length ≤ s.length := by
  cases f with
  | numWorkers =>
    obtain ⟨n, s1, h1, h⟩ := Reading.andThen_eq_ok_iff.1 h
    injection h with h
    simp only [Prod.mk.injEq] at h
    exact h.2 ▸ length_le_of_readWorkers h1
  | _ =>
    obtain ⟨n, s1, h1, h⟩ := Reading.andThen_eq_ok_iff.1 h
    injection h with h
    simp only [Prod.mk.injEq] at h
    exact h.2 ▸ Nat.le_of_lt (length_lt_of_readWord64 h1)

theorem length_le_of_readColon {s r : Bytes} {u : Unit} (h : readColon s = .ok (u, r)) :
    r.length ≤ s.length := by
  unfold readColon at h
  split at h
  · cases h
  · rename_i b s' hb
    have hl := length_skipBlanks_lt hb
    split at h
    · injection h with h
      simp only [Prod.mk.injEq] at h
      rw [← h.2]
      omega
    · cases h

theorem length_le_of_readMember {d d' : Draft} {s r : Bytes}
    (h : readMember d s = .ok (d', r)) : r.length ≤ s.length := by
  obtain ⟨name, s1, h1, h⟩ := Reading.andThen_eq_ok_iff.1 h
  have h1 := length_lt_of_readString h1
  split at h
  · split at h
    · cases h
    · obtain ⟨u, s2, h2, h⟩ := Reading.andThen_eq_ok_iff.1 h
      have h2 := length_le_of_readColon h2
      have h3 := length_le_of_readField h
      omega
  · obtain ⟨u, s2, h2, h⟩ := Reading.andThen_eq_ok_iff.1 h
    obtain ⟨u', s3, h3, h⟩ := Reading.andThen_eq_ok_iff.1 h
    have h2 := length_le_of_readColon h2
    have h3 := length_lt_of_skipFrames h3
    injection h with h
    simp only [Prod.mk.injEq] at h
    rw [← h.2]
    omega

theorem length_lt_of_readKeyStart {first : Bool} {s r : Bytes} {k : Option Unit}
    (h : readKeyStart first s = .ok (k, r)) : r.length < s.length := by
  unfold readKeyStart at h
  split at h
  · cases h
  · rename_i b s' hb
    have hl := length_skipBlanks_lt hb
    split at h
    · injection h with h
      simp only [Prod.mk.injEq] at h
      exact h.2 ▸ hl
    · split at h
      · split at h
        · injection h with h
          simp only [Prod.mk.injEq] at h
          exact h.2 ▸ hl
        · cases h
      · split at h
        · split at h
          · cases h
          · rename_i b' s'' hb'
            have hl' := length_skipBlanks_lt hb'
            split at h
            · injection h with h
              simp only [Prod.mk.injEq] at h
              rw [← h.2]
              omega
            · split at h <;> cases h
        · cases h

def readMembers (first : Bool) (d : Draft) (s : Bytes) : Reading Draft :=
  match hk : readKeyStart first s with
  | .error e => .error e
  | .ok (none, s') => .ok (d, s')
  | .ok (some (), s') =>
    match hm : readMember d s' with
    | .error e => .error e
    | .ok (d', s'') =>
      have : s''.length < s.length :=
        Nat.lt_of_le_of_lt (length_le_of_readMember hm) (length_lt_of_readKeyStart hk)
      readMembers false d' s''
termination_by s.length

/-! ### Lists -/

def readListEnd (s : Bytes) : Reading Unit :=
  match skipBlanks s with
  | [] => .error ⟨.endInList, []⟩
  | b :: s' =>
    if b = closeList then .ok ((), s')
    else if b = comma then
      match skipBlanks s' with
      | [] => .error ⟨.trailingCharacters, []⟩
      | b :: s'' =>
        if b = closeList then .error ⟨.trailingComma, s''⟩
        else .error ⟨.trailingCharacters, s''⟩
    else .error ⟨.trailingCharacters, s'⟩

/-- Reads up to where the next element of a list begins: `some ()` for an element and `none` for the
end of the list. -/
def readElementStart (first : Bool) (s : Bytes) : Reading (Option Unit) :=
  match skipBlanks s with
  | [] => .error ⟨.endInList, []⟩
  | b :: s' =>
    if b = closeList then .ok (none, s')
    else if first then .ok (some (), b :: s')
    else if b = comma then
      match skipBlanks s' with
      | [] => .error ⟨.endInValue, []⟩
      | b :: s'' =>
        if b = closeList then .error ⟨.trailingComma, s''⟩ else .ok (some (), b :: s'')
    else .error ⟨.noListComma, s'⟩

def readElements : List Field → Bool → Draft → Bytes → Reading Draft
  | [], _, d, s => (readListEnd s).andThen fun _ s => .ok (d, s)
  | f :: fields, first, d, s =>
    (readElementStart first s).andThen fun more s =>
    match more with
    | none => .ok (d, s)
    | some () => (d.readField f s).andThen fun d s => readElements fields false d s

/-! ### Whole texts -/

def readDraft (s : Bytes) : Reading Draft :=
  match skipBlanks s with
  | [] => .error ⟨.endInValue, []⟩
  | b :: s' =>
    if b = openObject then readMembers true {} s'
    else if b = openList then readElements Field.all true {} s'
    else .error (mismatch .settings (b :: s'))

def readText (s : Bytes) : Except Fault Settings :=
  match readDraft s with
  | .error e => .error e
  | .ok (d, rest) =>
    match skipBlanks rest with
    | [] => .ok d.complete
    | _ :: rest => .error ⟨.trailingCharacters, rest⟩

/-- Why a text gives no settings. -/
inductive ParseError where
  | malformed (fault : Fault) (text : Bytes)
  | defective (defect : Defect)

def ParseError.message : ParseError → String
  | malformed fault text => "malformed track settings: " ++ fault.message text
  | defective defect => "invalid track settings: " ++ defect.text

def parse (text : String) : Except ParseError Settings :=
  match readText (bytesOf text) with
  | .error fault => .error (.malformed fault (bytesOf text))
  | .ok s =>
    match s.defect? with
    | some defect => .error (.defective defect)
    | none => .ok s

end LiveTracks.Settings
