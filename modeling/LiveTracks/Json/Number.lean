import LiveTracks.Json.Token

/-!
# Numbers

A number is first split into its parts (`readNumeral`) and then given its value
(`Numeral.number`). Whole numbers that fit 64 bits are exact; all others are binary64 numbers, made from
the leading digits that fit 64 bits and a power of ten. That value may differ from the nearest one in
its last bits.
-/

namespace LiveTracks.Json

/-! ### The parts of a number -/

/-- The digits of an exponent, and whether a minus stands before them. -/
structure Exponent where
  negative : Bool
  digits : Bytes

/-- A number without its sign: the digits before the point, those behind it, and the exponent. -/
structure Numeral where
  whole : Bytes
  fraction : Option Bytes
  exponent : Option Exponent

/-- Reads the digits before the point: a zero that stands alone, or digits that begin with another.
`atEnd` is wrong with a text that ends instead. -/
def readWhole (atEnd : Cause) : Bytes → Reading Bytes
  | [] => .error ⟨atEnd, []⟩
  | b :: s =>
    if b = zero then
      if (s.head?.map isDigit).getD false then .error ⟨.badNumber, s.tail⟩ else .ok ([b], s)
    else if isDigit b then .ok (b :: s.takeWhile isDigit, s.dropWhile isDigit)
    else .error ⟨.badNumber, s⟩

def readFraction (atEnd : Cause) : Bytes → Reading (Option Bytes)
  | [] => .ok (none, [])
  | b :: s =>
    if b = point then
      if (s.takeWhile isDigit).isEmpty then
        match s with
        | [] => .error ⟨atEnd, []⟩
        | _ :: s' => .error ⟨.badNumber, s'⟩
      else .ok (some (s.takeWhile isDigit), s.dropWhile isDigit)
    else .ok (none, b :: s)

def readSign : Bytes → Bool × Bytes
  | [] => (false, [])
  | b :: s => if b = minus then (true, s) else if b = plus then (false, s) else (false, b :: s)

/-- Reads an `e`, a sign and the digits behind it, if there is an `e`. -/
def readExponent (atEnd : Cause) : Bytes → Reading (Option Exponent)
  | [] => .ok (none, [])
  | b :: s =>
    if b = lettere ∨ b = letterE then
      match readSign s with
      | (_, []) => .error ⟨atEnd, []⟩
      | (negative, d :: s') =>
        if isDigit d then
          .ok (some ⟨negative, d :: s'.takeWhile isDigit⟩, s'.dropWhile isDigit)
        else .error ⟨.badNumber, s'⟩
    else .ok (none, b :: s)

def readNumeral (atEnd : Cause) (s : Bytes) : Reading Numeral :=
  (readWhole atEnd s).andThen fun whole s =>
  (readFraction atEnd s).andThen fun fraction s =>
  (readExponent atEnd s).andThen fun exponent s =>
  .ok (⟨whole, fraction, exponent⟩, s)

/-! ### The value of a number -/

/-- A number in a text. -/
inductive Number where
  | natural (n : UInt64)
  | negative (n : Nat)
  | real (x : Float)

def Number.found : Number → Found
  | natural n => .integer n.toNat
  | negative n => .integer (-(n : Int))
  | real x => .real x

/-- Adds digits to a number as long as it stays within a limit, and leaves the others. -/
def gather (limit : Nat) (n : Nat) : Bytes → Nat × Bytes
  | [] => (n, [])
  | d :: ds =>
    let n' := 10 * n + digitValue d
    if n' ≤ limit then gather limit n' ds else (n, d :: ds)

def maxWord : Nat := 0xFFFFFFFFFFFFFFFF

def maxExponent : Nat := 0x7FFFFFFF

def maxPower : Nat := 308

def power (e : Nat) : Float := Float.ofScientific 1 false e

def divide (x : Float) (e : Nat) : Float :=
  if e ≤ maxPower then x / power e
  else if x == 0 then x
  else divide (x / power maxPower) (e - maxPower)
termination_by e
decreasing_by simp only [maxPower] at *; omega

/-- The number `n * 10 ^ e`, unless it is out of range. -/
def scale? (n : Nat) (e : Int) : Option Float :=
  let x := n.toUInt64.toFloat
  if e < 0 then some (divide x e.natAbs)
  else if e.natAbs ≤ maxPower then
    let y := x * power e.natAbs
    if y.isInf then none else some y
  else if x == 0 then some x
  else none

def signed (negative : Bool) (x : Float) : Float := if negative then -x else x

/-- The value of a number. `rest` follows it in the text; a number out of range is reported there,
and an exponent out of range behind the digit that took it out of range. An exponent below the range
makes the number zero, and any exponent leaves zero as it is. -/
def Numeral.number (x : Numeral) (negative : Bool) (rest : Bytes) : Except Fault Number :=
  let (n, beyond) := gather maxWord 0 x.whole
  let (n', unused) := gather maxWord n (x.fraction.getD [])
  let shift : Int := beyond.length - ((x.fraction.getD []).length - unused.length : Nat)
  let real (e : Int) : Except Fault Number :=
    match scale? n' e with
    | some y => .ok (.real (signed negative y))
    | none => .error ⟨.numberOutOfRange, rest⟩
  match x.fraction, x.exponent, beyond with
  | none, none, [] =>
    if !negative then .ok (.natural n.toUInt64)
    else if n = 0 ∨ 0x8000000000000000 < n then .ok (.real (signed true n.toUInt64.toFloat))
    else .ok (.negative n)
  | _, none, _ => real shift
  | _, some e, _ =>
    match gather maxExponent 0 e.digits with
    | (size, []) => real (if e.negative then shift - size else shift + size)
    | (_, _ :: digits) =>
      if n' ≠ 0 ∧ !e.negative then .error ⟨.numberOutOfRange, digits ++ rest⟩
      else .ok (.real (signed negative 0))

def readNumber (negative : Bool) (s : Bytes) : Reading Number :=
  (readNumeral .endInValue s).andThen fun x s => (x.number negative s).map (·, s)

/-! ### Lengths -/

theorem length_dropWhile_le (s : Bytes) : (s.dropWhile isDigit).length ≤ s.length :=
  (List.dropWhile_suffix _).length_le

theorem length_lt_of_readWhole {atEnd : Cause} {s r d : Bytes}
    (h : readWhole atEnd s = .ok (d, r)) : r.length < s.length := by
  cases s with
  | nil => cases h
  | cons b s =>
    have hd := length_dropWhile_le s
    simp only [readWhole] at h
    split at h
    · split at h
      · cases h
      · injection h with h
        simp_all
    · split at h
      · injection h with h
        simp only [Prod.mk.injEq] at h
        rw [← h.2, List.length_cons]
        omega
      · cases h

theorem length_le_of_readFraction {atEnd : Cause} {s r : Bytes} {d : Option Bytes}
    (h : readFraction atEnd s = .ok (d, r)) : r.length ≤ s.length := by
  cases s with
  | nil =>
    injection h with h
    simp_all
  | cons b s =>
    have hd := length_dropWhile_le s
    simp only [readFraction] at h
    split at h
    · split at h
      · split at h <;> cases h
      · injection h with h
        simp only [Prod.mk.injEq] at h
        rw [← h.2, List.length_cons]
        omega
    · injection h with h
      simp only [Prod.mk.injEq] at h
      exact h.2 ▸ Nat.le_refl _

theorem length_readSign_le (s : Bytes) : (readSign s).2.length ≤ s.length := by
  cases s with
  | nil => simp [readSign]
  | cons b s =>
    simp only [readSign]
    split
    · simp
    · split <;> simp

theorem length_le_of_readExponent {atEnd : Cause} {s r : Bytes} {d : Option Exponent}
    (h : readExponent atEnd s = .ok (d, r)) : r.length ≤ s.length := by
  cases s with
  | nil =>
    injection h with h
    simp_all
  | cons b s =>
    have hs := length_readSign_le s
    simp only [readExponent] at h
    split at h
    · split at h
      · cases h
      · rename_i negative d s' heq
        have hd := length_dropWhile_le s'
        rw [heq] at hs
        simp only [List.length_cons] at *
        split at h
        · injection h with h
          simp only [Prod.mk.injEq] at h
          rw [← h.2]
          omega
        · cases h
    · injection h with h
      simp only [Prod.mk.injEq] at h
      exact h.2 ▸ Nat.le_refl _

theorem length_lt_of_readNumeral {atEnd : Cause} {s r : Bytes} {x : Numeral}
    (h : readNumeral atEnd s = .ok (x, r)) : r.length < s.length := by
  obtain ⟨whole, s1, h1, h⟩ := Reading.andThen_eq_ok_iff.1 h
  obtain ⟨fraction, s2, h2, h⟩ := Reading.andThen_eq_ok_iff.1 h
  obtain ⟨exponent, s3, h3, h⟩ := Reading.andThen_eq_ok_iff.1 h
  injection h with h
  simp only [Prod.mk.injEq] at h
  have h1 := length_lt_of_readWhole h1
  have h2 := length_le_of_readFraction h2
  have h3 := length_le_of_readExponent h3
  rw [← h.2]
  omega

theorem length_lt_of_readNumber {negative : Bool} {s r : Bytes} {n : Number}
    (h : readNumber negative s = .ok (n, r)) : r.length < s.length := by
  obtain ⟨x, s1, h1, h⟩ := Reading.andThen_eq_ok_iff.1 h
  cases hn : x.number negative s1 with
  | error e => simp [hn, Except.map] at h
  | ok m =>
    simp only [hn, Except.map, Except.ok.injEq, Prod.mk.injEq] at h
    exact h.2 ▸ length_lt_of_readNumeral h1

end LiveTracks.Json
