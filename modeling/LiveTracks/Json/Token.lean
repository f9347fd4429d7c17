import LiveTracks.Json.Fault

/-!
# Tokens

Blanks and words of JSON. Every reader here leaves no more than it was given, and the lemmas say by
how much less: what is built from these readers ends by the length of what is left.
-/

namespace LiveTracks.Json

/-! ### Single bytes -/

def quote : UInt8 := 0x22
def plus : UInt8 := 0x2B
def comma : UInt8 := 0x2C
def minus : UInt8 := 0x2D
def point : UInt8 := 0x2E
def zero : UInt8 := 0x30
def colon : UInt8 := 0x3A
def backslash : UInt8 := 0x5C
def openList : UInt8 := 0x5B
def closeList : UInt8 := 0x5D
def openObject : UInt8 := 0x7B
def closeObject : UInt8 := 0x7D
def letterE : UInt8 := 0x45
def letterf : UInt8 := 0x66
def lettere : UInt8 := 0x65
def lettern : UInt8 := 0x6E
def lettert : UInt8 := 0x74
def letteru : UInt8 := 0x75

def isBlank (b : UInt8) : Bool := b = 0x20 || b = 0x0A || b = 0x0D || b = 0x09

def isDigit (b : UInt8) : Bool := 0x30 ≤ b && b ≤ 0x39

def digitValue (b : UInt8) : Nat := b.toNat - 0x30

/-! ### Blanks -/

def skipBlanks (s : Bytes) : Bytes := s.dropWhile isBlank

theorem length_skipBlanks_le (s : Bytes) : (skipBlanks s).length ≤ s.length :=
  (List.dropWhile_suffix _).length_le

/-! ### Words -/

def readWord : Bytes → Bytes → Reading Unit
  | [], s => .ok ((), s)
  | _ :: _, [] => .error ⟨.endInValue, []⟩
  | w :: word, b :: s => if b = w then readWord word s else .error ⟨.unknownWord, s⟩

def bytesOf (s : String) : Bytes := s.toUTF8.toList

/-- What follows the first letter of `null`. -/
def ull : Bytes := [0x75, 0x6C, 0x6C]

/-- What follows the first letter of `true`. -/
def rue : Bytes := [0x72, 0x75, 0x65]

/-- What follows the first letter of `false`. -/
def alse : Bytes := [0x61, 0x6C, 0x73, 0x65]

theorem length_le_of_readWord {word s r : Bytes} {u : Unit} (h : readWord word s = .ok (u, r)) :
    r.length ≤ s.length := by
  fun_induction readWord word s with
  | case1 => cases h; exact Nat.le_refl _
  | case2 => cases h
  | case3 w word s ih => exact Nat.le_succ_of_le (ih h)
  | case4 => cases h

end LiveTracks.Json
