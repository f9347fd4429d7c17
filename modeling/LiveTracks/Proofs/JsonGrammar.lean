import LiveTracks.Json.Token
import Mathlib.Data.List.Basic

/-!
# The grammar of JSON

Values of any depth as trees, and the tokens that a value is written with (`Value.tokens`). A text of given tokens
has any blanks before, between and behind them (`Written`). What a tree cannot say is not JSON: a whole number has no
zero too many in front, a control character is never written as itself, and whatever is decoded is a Unicode
character (`Letter.char`), since a surrogate stands alone only in strings that nobody decodes (`Piece`).
-/

namespace LiveTracks.Json

inductive Blank where
  | space
  | lineFeed
  | carriageReturn
  | tab
deriving DecidableEq

def Blank.byte : Blank → UInt8
  | space => 0x20
  | lineFeed => 0x0A
  | carriageReturn => 0x0D
  | tab => 0x09

/-! ### Strings -/

/-- A digit of base 16; a letter among them may be a capital one. -/
structure HexDigit where
  value : Fin 16
  capital : Bool := false
deriving DecidableEq

def HexDigit.byte (d : HexDigit) : UInt8 :=
  if d.value < 10 then UInt8.ofNat (0x30 + d.value)
  else if d.capital then UInt8.ofNat (0x37 + d.value)
  else UInt8.ofNat (0x57 + d.value)

/-- The four digits of an escape. -/
structure CodeUnit where
  first : HexDigit
  second : HexDigit
  third : HexDigit
  fourth : HexDigit
deriving DecidableEq

namespace CodeUnit

/-- The code unit of a number, in small letters. -/
def ofNat (n : Nat) : CodeUnit :=
  ⟨⟨Fin.ofNat 16 (n / 0x1000), false⟩, ⟨Fin.ofNat 16 (n / 0x100), false⟩, ⟨Fin.ofNat 16 (n / 0x10), false⟩,
    ⟨Fin.ofNat 16 n, false⟩⟩

def value (u : CodeUnit) : Nat :=
  0x1000 * u.first.value + 0x100 * u.second.value + 0x10 * u.third.value + u.fourth.value

def digits (u : CodeUnit) : Bytes := [u.first.byte, u.second.byte, u.third.byte, u.fourth.byte]

def bytes (u : CodeUnit) : Bytes := backslash :: letteru :: u.digits

def IsHigh (u : CodeUnit) : Prop := 0xD800 ≤ u.value ∧ u.value ≤ 0xDBFF

def IsLow (u : CodeUnit) : Prop := 0xDC00 ≤ u.value ∧ u.value ≤ 0xDFFF

instance (u : CodeUnit) : Decidable u.IsHigh := inferInstanceAs (Decidable (_ ∧ _))

instance (u : CodeUnit) : Decidable u.IsLow := inferInstanceAs (Decidable (_ ∧ _))

end CodeUnit

/-- An escape of a single letter. -/
inductive Short where
  | quote
  | backslash
  | slash
  | backspace
  | formFeed
  | lineFeed
  | carriageReturn
  | tab
deriving DecidableEq

def Short.letter : Short → UInt8
  | quote => 0x22
  | backslash => 0x5C
  | slash => 0x2F
  | backspace => 0x62
  | formFeed => 0x66
  | lineFeed => 0x6E
  | carriageReturn => 0x72
  | tab => 0x74

def Short.char : Short → Char
  | quote => '\x22'
  | backslash => '\\'
  | slash => '/'
  | backspace => '\x08'
  | formFeed => '\x0c'
  | lineFeed => '\n'
  | carriageReturn => '\r'
  | tab => '\t'

/-- A character as it may be written in a string. -/
inductive Letter where
  | plain (c : Char) (shown : 0x20 ≤ c.toNat) (ne_quote : c ≠ '\x22') (ne_backslash : c ≠ '\\')
  | short (e : Short)
  | code (u : CodeUnit) (not_high : ¬ u.IsHigh) (not_low : ¬ u.IsLow)
  | pair (high low : CodeUnit) (is_high : high.IsHigh) (is_low : low.IsLow)

namespace Letter

def char : Letter → Char
  | plain c _ _ _ => c
  | short e => e.char
  | code u _ _ => Char.ofNat u.value
  | pair high low _ _ => Char.ofNat (0x10000 + 0x400 * (high.value - 0xD800) + (low.value - 0xDC00))

def bytes : Letter → Bytes
  | plain c _ _ _ => String.utf8EncodeChar c
  | short e => [Json.backslash, e.letter]
  | code u _ _ => u.bytes
  | pair high low _ _ => high.bytes ++ low.bytes

end Letter

/-- The text that is written with these letters. -/
def textOf (ls : List Letter) : String := String.ofList (ls.map Letter.char)

def isPlainChar (c : Char) : Bool := 0x20 ≤ c.toNat && c != '\x22' && c != '\\'

theorem plain_of_all {cs : List Char} (h : cs.all isPlainChar = true) {c : Char} (hc : c ∈ cs) :
    0x20 ≤ c.toNat ∧ c ≠ '\x22' ∧ c ≠ '\\' := by
  have hplain := List.all_eq_true.1 h c hc
  simpa [isPlainChar, and_assoc] using hplain

/-- A text as it is written without escapes. -/
def unescaped (cs : List Char) (h : cs.all isPlainChar = true) : List Letter :=
  cs.attach.map fun c =>
    .plain c.1 (plain_of_all h c.2).1 (plain_of_all h c.2).2.1 (plain_of_all h c.2).2.2

/-- A part of a string that nobody decodes. -/
inductive Piece where
  | letter (l : Letter)
  | unit (u : CodeUnit)

def Piece.bytes : Piece → Bytes
  | letter l => l.bytes
  | unit u => u.bytes

/-! ### Numbers -/

def digitByte (d : Fin 10) : UInt8 := UInt8.ofNat (0x30 + d)

/-- The number with these digits behind those of another. -/
def withDigits (n : Nat) (ds : List (Fin 10)) : Nat := ds.foldl (fun n d => 10 * n + d.val) n

/-- One digit or more. -/
structure Digits where
  first : Fin 10
  rest : List (Fin 10)
deriving DecidableEq

namespace Digits

/-- Digits that are given as numbers. -/
def ofNats (first : Nat) (rest : List Nat) : Digits := ⟨Fin.ofNat 10 first, rest.map (Fin.ofNat 10)⟩

def toList (ds : Digits) : List (Fin 10) := ds.first :: ds.rest

def bytes (ds : Digits) : Bytes := ds.toList.map digitByte

def value (ds : Digits) : Nat := withDigits 0 ds.toList

end Digits

inductive Sign where
  | plus
  | minus
deriving DecidableEq

def Sign.byte : Sign → UInt8
  | plus => Json.plus
  | minus => Json.minus

/-- The power of ten of a number. -/
structure Power where
  capital : Bool
  sign : Option Sign
  digits : Digits
deriving DecidableEq

def Power.bytes (p : Power) : Bytes :=
  (if p.capital then letterE else lettere) :: (p.sign.toList.map Sign.byte ++ p.digits.bytes)

/-- A number as it is written. Only zero itself begins with a zero. -/
structure Literal where
  negative : Bool
  whole : Digits
  fraction : Option Digits
  power : Option Power
  zero_alone : whole.first = 0 → whole.rest = []
deriving DecidableEq

namespace Literal

/-- A number in digits that are given as numbers, with no zero in front. -/
def ofNats (negative : Bool) (first : Nat) (rest : List Nat) (ne_zero : first % 10 ≠ 0) (fraction : Option Digits)
    (power : Option Power) : Literal :=
  ⟨negative, .ofNats first rest, fraction, power, fun h => absurd (congrArg Fin.val h) ne_zero⟩

def magnitude (x : Literal) : Bytes :=
  x.whole.bytes ++ ((x.fraction.toList.flatMap fun ds => point :: ds.bytes) ++ x.power.toList.flatMap Power.bytes)

def bytes (x : Literal) : Bytes := if x.negative then minus :: x.magnitude else x.magnitude

/-- The byte that a number begins with. -/
def lead (x : Literal) : UInt8 := if x.negative then minus else digitByte x.whole.first

/-- A number without a sign, a fraction and a power of ten. -/
def IsPlain (x : Literal) : Prop := x.negative = false ∧ x.fraction = none ∧ x.power = none

instance (x : Literal) : Decidable x.IsPlain := inferInstanceAs (Decidable (_ ∧ _))

end Literal

/-! ### Values -/

inductive Value where
  | null
  | boolean (b : Bool)
  | number (x : Literal)
  | string (s : List Piece)
  | list (elements : List Value)
  | object (members : List (List Piece × Value))

inductive Token where
  | openList
  | closeList
  | openObject
  | closeObject
  | comma
  | colon
  | null
  | boolean (b : Bool)
  | number (x : Literal)
  | string (s : List Piece)

def Token.bytes : Token → Bytes
  | openList => [Json.openList]
  | closeList => [Json.closeList]
  | openObject => [Json.openObject]
  | closeObject => [Json.closeObject]
  | comma => [Json.comma]
  | colon => [Json.colon]
  | null => lettern :: ull
  | boolean b => if b then lettert :: rue else letterf :: alse
  | number x => x.bytes
  | string s => quote :: (s.flatMap Piece.bytes ++ [quote])

mutual

def Value.tokens : Value → List Token
  | .null => [.null]
  | .boolean b => [.boolean b]
  | .number x => [.number x]
  | .string s => [.string s]
  | .list [] => [.openList, .closeList]
  | .list (v :: vs) => .openList :: (v.tokens ++ furtherElements vs)
  | .object [] => [.openObject, .closeObject]
  | .object ((key, v) :: ms) => .openObject :: .string key :: .colon :: (v.tokens ++ furtherMembers ms)

/-- What follows an element of a list, up to the end of the list. -/
def furtherElements : List Value → List Token
  | [] => [.closeList]
  | v :: vs => .comma :: (v.tokens ++ furtherElements vs)

/-- What follows a member of an object, up to the end of the object. -/
def furtherMembers : List (List Piece × Value) → List Token
  | [] => [.closeObject]
  | (key, v) :: ms => .comma :: .string key :: .colon :: (v.tokens ++ furtherMembers ms)

end

/-- The byte that a value begins with. -/
def Value.lead : Value → UInt8
  | .null => lettern
  | .boolean b => if b then lettert else letterf
  | .number x => x.lead
  | .string _ => quote
  | .list _ => openList
  | .object _ => openObject

/-! ### Texts -/

/-- A text of these tokens, with any blanks before, between and behind them. -/
inductive Written : List Token → Bytes → Prop where
  | blanks (bs : List Blank) : Written [] (bs.map Blank.byte)
  | token (bs : List Blank) (t : Token) {ts : List Token} {s : Bytes} (h : Written ts s) :
      Written (t :: ts) (bs.map Blank.byte ++ (t.bytes ++ s))

/-- The same blanks may stand everywhere, and none as well. -/
theorem written_spaced (gap : List Blank) (ts : List Token) :
    Written ts ((ts.flatMap fun t => gap.map Blank.byte ++ t.bytes) ++ gap.map Blank.byte) := by
  induction ts with
  | nil => exact .blanks gap
  | cons t ts ih =>
    rw [List.flatMap_cons, List.append_assoc, List.append_assoc]
    exact .token gap t ih

theorem Written.drop {ts : List Token} (before : List Token) {s : Bytes} (h : Written (before ++ ts) s) :
    ∃ r, Written ts r := by
  induction before generalizing s with
  | nil => exact ⟨s, h⟩
  | cons t before ih =>
    cases h with
    | token bs t h => exact ih h

end LiveTracks.Json
