import LiveTracks.Decimal.Shortest
import LiveTracks.Text.Digits

/-!
# The text of a binary64 number

The shortest decimal that reads back, with a point and at least one digit on each side of it where the
leading digit has an exponent from -5 to 15, and otherwise with one digit before the point and an
exponent.
-/

namespace LiveTracks.Decimal

/-- Digits without zeros at the end, laid out with the point behind the digit of exponent 0, where
the leading digit has exponent `e`. -/
def positional (digits : List Char) (e : Int) : List Char :=
  if e < 0 then '0' :: '.' :: List.replicate (-e - 1).toNat '0' ++ digits
  else
    let whole := digits.take (e.toNat + 1)
    let places := digits.drop (e.toNat + 1)
    whole ++ List.replicate (e.toNat + 1 - whole.length) '0' ++
      '.' :: (if places.isEmpty then ['0'] else places)

/-- Digits without zeros at the end, laid out with the point behind the first and with the exponent
`e` of the first. -/
def scientific (digits : List Char) (e : Int) : List Char :=
  let places := digits.drop 1
  digits.take 1 ++ (if places.isEmpty then [] else '.' :: places) ++
    'e' :: (if e < 0 then '-' else '+') :: Nat.toDigits 10 e.natAbs

def layout (d : Scaled) : List Char :=
  let all := Nat.toDigits 10 d.digits
  let e := d.exp + (all.length - 1 : Nat)
  let digits := Text.dropZeros all
  if -5 ≤ e ∧ e ≤ 15 then positional digits e else scientific digits e

def floatText (x : Float) : String :=
  let bits := x.toBits
  let magnitude := Binary.ofBits bits
  let body := if magnitude.m = 0 then ['0', '.', '0'] else layout magnitude.shortest
  String.ofList (if bits >>> 63 = 1 then '-' :: body else body)

end LiveTracks.Decimal
