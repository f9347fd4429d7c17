import LiveTracks.Json.Token

/-!
# Strings

Two readers of what stands behind an opening quote. `readString` decodes the escapes and gives the
text; `skipString` only passes over it, and does not ask whether surrogates come in pairs.
-/

namespace LiveTracks.Json

/-! ### Escapes -/

def unescape? (b : UInt8) : Option UInt8 :=
  if b = quote then some quote
  else if b = backslash then some backslash
  else if b = 0x2F then some 0x2F
  else if b = 0x62 then some 0x08
  else if b = letterf then some 0x0C
  else if b = lettern then some 0x0A
  else if b = 0x72 then some 0x0D
  else if b = lettert then some 0x09
  else none

def hexValue? (b : UInt8) : Option Nat :=
  if isDigit b then some (digitValue b)
  else if 0x41 ≤ b ∧ b ≤ 0x46 then some (b.toNat - 0x37)
  else if 0x61 ≤ b ∧ b ≤ 0x66 then some (b.toNat - 0x57)
  else none

def hexValue4? (a b c d : UInt8) : Option Nat := do
  return (((← hexValue? a) * 16 + (← hexValue? b)) * 16 + (← hexValue? c)) * 16 + (← hexValue? d)

def readHex : Bytes → Reading Nat
  | a :: b :: c :: d :: s =>
    match hexValue4? a b c d with
    | some n => .ok (n, s)
    | none => .error ⟨.badEscape, s⟩
  | _ => .error ⟨.endInString, []⟩

def isHighSurrogate (n : Nat) : Bool := 0xD800 ≤ n && n ≤ 0xDBFF

def isLowSurrogate (n : Nat) : Bool := 0xDC00 ≤ n && n ≤ 0xDFFF

def pairValue (high low : Nat) : Nat := (high - 0xD800) * 0x400 + (low - 0xDC00) + 0x10000

def encode (n : Nat) : Bytes := String.utf8EncodeChar (Char.ofNat n)

/-- Reads a backslash and a `u`. -/
def readPairMark : Bytes → Reading Unit
  | [] => .error ⟨.endInString, []⟩
  | b :: s =>
    if b = backslash then
      match s with
      | [] => .error ⟨.endInString, []⟩
      | b' :: s' => if b' = letteru then .ok ((), s') else .error ⟨.endOfEscape, s'⟩
    else .error ⟨.endOfEscape, s⟩

/-- Reads what follows a backslash and a `u`: four digits, or eight in two halves where they make up
a surrogate pair. -/
def readUnicode (s : Bytes) : Reading Bytes :=
  (readHex s).andThen fun n s =>
  if isLowSurrogate n then .error ⟨.loneSurrogate, s⟩
  else if isHighSurrogate n then
    (readPairMark s).andThen fun _ s =>
    (readHex s).andThen fun low s =>
    if isLowSurrogate low then .ok (encode (pairValue n low), s)
    else .error ⟨.loneSurrogate, s⟩
  else .ok (encode n, s)

def readEscape : Bytes → Reading Bytes
  | [] => .error ⟨.endInString, []⟩
  | b :: s =>
    if b = letteru then readUnicode s
    else
      match unescape? b with
      | some b' => .ok ([b'], s)
      | none => .error ⟨.badEscape, s⟩

def skipEscape : Bytes → Reading Unit
  | [] => .error ⟨.endInString, []⟩
  | b :: s =>
    if b = letteru then (readHex s).andThen fun _ s => .ok ((), s)
    else if (unescape? b).isSome then .ok ((), s)
    else .error ⟨.badEscape, s⟩

/-! ### Lengths of escapes -/

theorem length_le_of_readHex {s r : Bytes} {n : Nat} (h : readHex s = .ok (n, r)) :
    r.length ≤ s.length := by
  unfold readHex at h
  split at h
  · split at h
    · injection h with h
      simp only [Prod.mk.injEq] at h
      simp only [← h.2, List.length_cons]
      omega
    · cases h
  · cases h

theorem length_le_of_readPairMark {s r : Bytes} {u : Unit} (h : readPairMark s = .ok (u, r)) :
    r.length ≤ s.length := by
  unfold readPairMark at h
  split at h
  · cases h
  · split at h
    · split at h
      · cases h
      · split at h
        · injection h with h
          simp only [Prod.mk.injEq] at h
          simp only [← h.2, List.length_cons]
          omega
        · cases h
    · cases h

theorem length_le_of_readUnicode {s r d : Bytes} (h : readUnicode s = .ok (d, r)) :
    r.length ≤ s.length := by
  obtain ⟨n, s1, h1, h⟩ := Reading.andThen_eq_ok_iff.1 h
  have h1 := length_le_of_readHex h1
  split at h
  · cases h
  · split at h
    · obtain ⟨u, s2, h2, h⟩ := Reading.andThen_eq_ok_iff.1 h
      obtain ⟨low, s3, h3, h⟩ := Reading.andThen_eq_ok_iff.1 h
      have h2 := length_le_of_readPairMark h2
      have h3 := length_le_of_readHex h3
      split at h
      · injection h with h
        simp only [Prod.mk.injEq] at h
        rw [← h.2]
        omega
      · cases h
    · injection h with h
      simp only [Prod.mk.injEq] at h
      rw [← h.2]
      omega

theorem length_le_of_readEscape {s r d : Bytes} (h : readEscape s = .ok (d, r)) :
    r.length ≤ s.length := by
  unfold readEscape at h
  split at h
  · cases h
  · split at h
    · exact Nat.le_succ_of_le (length_le_of_readUnicode h)
    · split at h
      · injection h with h
        simp only [Prod.mk.injEq] at h
        simp [← h.2]
      · cases h

theorem length_le_of_skipEscape {s r : Bytes} {u : Unit} (h : skipEscape s = .ok (u, r)) :
    r.length ≤ s.length := by
  unfold skipEscape at h
  split at h
  · cases h
  · split at h
    · obtain ⟨n, s1, h1, h⟩ := Reading.andThen_eq_ok_iff.1 h
      have h1 := length_le_of_readHex h1
      injection h with h
      simp only [Prod.mk.injEq] at h
      simp only [← h.2, List.length_cons]
      omega
    · split at h
      · injection h with h
        simp only [Prod.mk.injEq] at h
        simp [← h.2]
      · cases h

/-! ### Whole strings -/

def readString : Bytes → Reading Bytes
  | [] => .error ⟨.endInString, []⟩
  | b :: s =>
    if b = quote then .ok ([], s)
    else if b = backslash then
      match h : readEscape s with
      | .ok (d, s') =>
        have : s'.length < s.length + 1 := Nat.lt_succ_of_le (length_le_of_readEscape h)
        (readString s').andThen fun ds rest => .ok (d ++ ds, rest)
      | .error e => .error e
    else if b < 0x20 then .error ⟨.controlCharacter, s⟩
    else (readString s).andThen fun ds rest => .ok (b :: ds, rest)
termination_by s => s.length

/-- Passes over the rest of a string up to its closing quote. A control character is reported where it
stands. -/
def skipString : Bytes → Reading Unit
  | [] => .error ⟨.endInString, []⟩
  | b :: s =>
    if b = quote then .ok ((), s)
    else if b = backslash then
      match h : skipEscape s with
      | .ok ((), s') =>
        have : s'.length < s.length + 1 := Nat.lt_succ_of_le (length_le_of_skipEscape h)
        skipString s'
      | .error e => .error e
    else if b < 0x20 then .error ⟨.controlCharacter, b :: s⟩
    else skipString s
termination_by s => s.length

theorem length_lt_of_readString {s r d : Bytes} (h : readString s = .ok (d, r)) :
    r.length < s.length := by
  fun_induction readString s generalizing d r with
  | case1 => cases h
  | case2 s =>
    injection h with h
    simp_all
  | case3 s d' s' hs he hq ih =>
    obtain ⟨ds, s1, h1, h⟩ := Reading.andThen_eq_ok_iff.1 h
    have h1 := ih h1
    injection h with h
    simp only [Prod.mk.injEq] at h
    simp only [← h.2, List.length_cons]
    omega
  | case4 => cases h
  | case5 => cases h
  | case6 b s hq hb hc ih =>
    obtain ⟨ds, s1, h1, h⟩ := Reading.andThen_eq_ok_iff.1 h
    have h1 := ih h1
    injection h with h
    simp only [Prod.mk.injEq] at h
    simp only [← h.2, List.length_cons]
    omega

theorem length_lt_of_skipString {s r : Bytes} {u : Unit} (h : skipString s = .ok (u, r)) :
    r.length < s.length := by
  fun_induction skipString s with
  | case1 => cases h
  | case2 s =>
    injection h with h
    simp_all
  | case3 s s' hs he hq ih =>
    have h1 := ih h
    simp only [List.length_cons]
    omega
  | case4 => cases h
  | case5 => cases h
  | case6 b s hq hb hc ih =>
    have h1 := ih h
    simp only [List.length_cons]
    omega

end LiveTracks.Json
