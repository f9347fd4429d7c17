/-!
# Shortest decimals

The shortest decimal that reads back as a given binary64 value, and the nearest of those to the value.

A decimal reads back as a value if it lies between the midpoints to the two neighbours of the value;
the midpoints themselves count exactly if the significand is even. For one digit, two digits and so on
the two neighbours of the value on the grid of that many digits are tried; the first grid with a hit
wins, of two hits the nearer, and of two equally near ones the even. All comparisons are exact.
-/

namespace LiveTracks.Decimal

/-- The positive value `m * 2 ^ q` of 64 bits. -/
structure Binary where
  m : Nat
  q : Int
  narrowBelow : Bool

def Binary.ofBits (bits : UInt64) : Binary :=
  let e := ((bits >>> 52) &&& 0x7FF).toNat
  let f := (bits &&& 0xFFFFFFFFFFFFF).toNat
  if e = 0 then ⟨f, -1074, false⟩
  else ⟨0x10000000000000 + f, (e : Int) - 1075, f = 0 && 1 < e⟩

/-- The decimal `digits * 10 ^ exp`. -/
structure Scaled where
  digits : Nat
  exp : Int
deriving DecidableEq, Repr

/-- The order of `a * 10 ^ i` and `b * 2 ^ j`. -/
def compareScaled (a : Nat) (i : Int) (b : Nat) (j : Int) : Ordering :=
  compare (a * Nat.pow 10 i.toNat * Nat.pow 2 (-j).toNat)
    (b * Nat.pow 2 j.toNat * Nat.pow 10 (-i).toNat)

namespace Binary

def readsBack (x : Binary) (d : Scaled) : Bool :=
  let low := 4 * x.m - (if x.narrowBelow then 1 else 2)
  let high := 4 * x.m + 2
  let ends := x.m % 2 = 0
  let above := compareScaled d.digits d.exp low (x.q - 2)
  let below := compareScaled d.digits d.exp high (x.q - 2)
  (above = .gt || (ends && above = .eq)) && (below = .lt || (ends && below = .eq))

/-- The whole part of the value divided by `10 ^ g`. -/
def onGrid (x : Binary) (g : Int) : Nat :=
  x.m * Nat.pow 2 x.q.toNat * Nat.pow 10 (-g).toNat / (Nat.pow 2 (-x.q).toNat * Nat.pow 10 g.toNat)

/-- The exponent of ten of the leading digit. No value is below `10 ^ (-330)`. -/
def leadingExp (x : Binary) : Int :=
  ((Nat.toDigits 10 (x.onGrid (-330))).length : Int) - 331

/-- The neighbours of the value on the grid of `10 ^ g` that read back, or rather the nearer one of
them, on a tie the even one. -/
def nearestOnGrid? (x : Binary) (g : Int) : Option Scaled :=
  let a := x.onGrid g
  match x.readsBack ⟨a, g⟩, x.readsBack ⟨a + 1, g⟩ with
  | true, true =>
    match compareScaled (2 * a + 1) g x.m (x.q + 1) with
    | .gt => some ⟨a, g⟩
    | .lt => some ⟨a + 1, g⟩
    | .eq => some ⟨a + a % 2, g⟩
  | true, false => some ⟨a, g⟩
  | false, true => some ⟨a + 1, g⟩
  | false, false => none

def exact (x : Binary) : Scaled :=
  if 0 ≤ x.q then ⟨x.m * Nat.pow 2 x.q.toNat, 0⟩ else ⟨x.m * Nat.pow 5 (-x.q).toNat, x.q⟩

/-- The shortest decimal that reads back as the value; no value needs more than 17 digits. -/
def shortest (x : Binary) : Scaled :=
  ((List.range 17).findSome? fun n : Nat => x.nearestOnGrid? (x.leadingExp - n)).getD x.exact

end Binary

example : (Binary.ofBits 0x3FB999999999999A).shortest = ⟨1, -1⟩ := by decide +kernel
example : (Binary.ofBits 1).shortest = ⟨5, -324⟩ := by decide +kernel
example : (Binary.ofBits 0x7FEFFFFFFFFFFFFF).shortest = ⟨17976931348623157, 292⟩ := by
  decide +kernel

end LiveTracks.Decimal
