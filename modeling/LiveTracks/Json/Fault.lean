import LiveTracks.Decimal.Text
import LiveTracks.Text.Quoted

/-!
# Faults of a JSON text

What can be wrong with a JSON text, or with a value in it that is not of the wanted kind, and where.
Readers work on bytes and answer with what is left of them; a fault keeps the bytes that follow the
place it is reported for, and `Place.before` turns these into a line and a column.
-/

namespace LiveTracks.Json

abbrev Bytes := List UInt8

/-- A kind of value that a reader wants. -/
inductive Wanted where
  | settings
  | word
  | size
deriving DecidableEq, Repr

def Wanted.text : Wanted → String
  | settings => "struct TrackSettings"
  | word => "u64"
  | size => "usize"

/-- A value that was found where one of another kind was wanted. -/
inductive Found where
  | null
  | boolean (value : Bool)
  | integer (value : Int)
  | real (value : Float)
  | string (value : String)
  | list
  | object

def Found.text : Found → String
  | null => "null"
  | boolean b => "boolean `" ++ (if b then "true" else "false") ++ "`"
  | integer n => "integer `" ++ toString n ++ "`"
  | real x => "floating point `" ++ Decimal.floatText x ++ "`"
  | string s => "string " ++ Text.quoted s
  | list => "sequence"
  | object => "map"

/-- What is wrong. -/
inductive Cause where
  | endInValue
  | endInList
  | endInObject
  | endInString
  | noValue
  /-- A word that is not `null`, `true` or `false`. -/
  | unknownWord
  | noColon
  | noListComma
  | noObjectComma
  | keyNotString
  | trailingComma
  | trailingCharacters
  | badNumber
  | numberOutOfRange
  | controlCharacter
  | badEscape
  | loneSurrogate
  | endOfEscape
  | duplicateField (name : String)
  | wrongKind (found : Found) (wanted : Wanted)
  | wrongValue (found : Found) (wanted : Wanted)

def Cause.text : Cause → String
  | endInValue => "EOF while parsing a value"
  | endInList => "EOF while parsing a list"
  | endInObject => "EOF while parsing an object"
  | endInString => "EOF while parsing a string"
  | noValue => "expected value"
  | unknownWord => "expected ident"
  | noColon => "expected `:`"
  | noListComma => "expected `,` or `]`"
  | noObjectComma => "expected `,` or `\x7d`"
  | keyNotString => "key must be a string"
  | trailingComma => "trailing comma"
  | trailingCharacters => "trailing characters"
  | badNumber => "invalid number"
  | numberOutOfRange => "number out of range"
  | controlCharacter => "control character (\\u0000-\\u001F) found while parsing a string"
  | badEscape => "invalid escape"
  | loneSurrogate => "lone leading surrogate in hex escape"
  | endOfEscape => "unexpected end of hex escape"
  | duplicateField name => "duplicate field `" ++ name ++ "`"
  | wrongKind found wanted => "invalid type: " ++ found.text ++ ", expected " ++ wanted.text
  | wrongValue found wanted => "invalid value: " ++ found.text ++ ", expected " ++ wanted.text

/-- What is wrong, and the bytes behind the place that it is reported for. -/
structure Fault where
  cause : Cause
  rest : Bytes

abbrev Reading (α : Type) := Except Fault (α × Bytes)

def Reading.andThen {α β : Type} (x : Reading α) (f : α → Bytes → Reading β) : Reading β :=
  match x with
  | .ok (a, rest) => f a rest
  | .error e => .error e

@[simp] theorem Reading.andThen_ok {α β : Type} (a : α) (rest : Bytes)
    (f : α → Bytes → Reading β) : Reading.andThen (.ok (a, rest)) f = f a rest := rfl

@[simp] theorem Reading.andThen_error {α β : Type} (e : Fault) (f : α → Bytes → Reading β) :
    Reading.andThen (.error e) f = .error e := rfl

theorem Reading.andThen_eq_ok_iff {α β : Type} {x : Reading α} {f : α → Bytes → Reading β}
    {y : β × Bytes} : x.andThen f = .ok y ↔ ∃ a rest, x = .ok (a, rest) ∧ f a rest = .ok y := by
  cases x with
  | error e => simp
  | ok p =>
    obtain ⟨a, rest⟩ := p
    rw [andThen_ok]
    constructor
    · intro h
      exact ⟨a, rest, rfl, h⟩
    · rintro ⟨a', rest', h, h'⟩
      injection h with h
      injection h with ha hr
      rw [ha, hr, h']

/-- A place in a text: lines are counted from 1, and columns are the bytes since the last line feed. -/
structure Place where
  line : Nat
  column : Nat
deriving DecidableEq, Repr

def Place.before (text rest : Bytes) : Place :=
  let passed := text.take (text.length - rest.length)
  ⟨passed.count 0x0A + 1, (passed.reverse.takeWhile (· != 0x0A)).length⟩

def Fault.message (f : Fault) (text : Bytes) : String :=
  let place := Place.before text f.rest
  f.cause.text ++ " at line " ++ toString place.line ++ " column " ++ toString place.column

end LiveTracks.Json
