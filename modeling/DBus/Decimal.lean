import DBus.FloatingPoint

/-!
# Doubles in decimal

A double is written with the fewest digits that read back as the same double, and of the
decimals with that many digits the nearest one; of two equally near ones the greater. The
search is exact: a decimal reads back when it lies between the midpoints to the two
neighbouring doubles, the midpoints included when the significand is even.

`Decimal.text` lays the digits out, positionally or with an exponent as a range of exponents
decides, and always with a point when positional.
-/

namespace DBus.Decimal

-- `^` is the power of the standard library, whichever others are in scope.
attribute [local instance (1100)] instPowNat

/-- Compare `a * 10 ^ i` with `n * 2 ^ j`. -/
def compareScaled (a : Nat) (i : Int) (n : Nat) (j : Int) : Ordering :=
  compare (a * 10 ^ i.toNat * 2 ^ (-j).toNat) (n * 2 ^ j.toNat * 10 ^ (-i).toNat)

/-- Whether the decimal `d * 10 ^ i` rounds to the double `m * 2 ^ q`. Below a power of two the
neighbour is only half as far away (`narrow`). -/
def readsBack (m : Nat) (q : Int) (narrow : Bool) (d : Nat) (i : Int) : Bool :=
  let low := compareScaled d i (if narrow then 4 * m - 1 else 4 * m - 2) (q - 2)
  let high := compareScaled d i (4 * m + 2) (q - 2)
  (low = .gt || (m % 2 = 0 && low = .eq)) && (high = .lt || (m % 2 = 0 && high = .eq))

/-- The least `k` with `m * 2 ^ q < 10 ^ k`, for a positive `m`. -/
def scale (m : Nat) (q : Int) : Int :=
  let k := (m.log2 + q) * 30103 / 100000
  if compareScaled 1 k m q = .gt then k
  else if compareScaled 1 (k + 1) m q = .gt then k + 1
  else k + 2

/-- The greatest `d` with `d * 10 ^ i ≤ m * 2 ^ q`. -/
def floorAt (m : Nat) (q i : Int) : Nat :=
  m * 2 ^ q.toNat * 10 ^ (-i).toNat / (10 ^ i.toNat * 2 ^ (-q).toNat)

/-- A decimal on the grid of `10 ^ i` that reads back: the nearer one of the two neighbours of
`m * 2 ^ q` that do, the upper one on a tie. -/
def onGrid? (m : Nat) (q : Int) (narrow : Bool) (i : Int) : Option (Nat × Int) :=
  let d := floorAt m q i
  match readsBack m q narrow d i, readsBack m q narrow (d + 1) i with
  | true, true =>
    if compareScaled (2 * d + 1) i (2 * m) q = .gt then some (d, i) else some (d + 1, i)
  | true, false => some (d, i)
  | false, true => some (d + 1, i)
  | false, false => none

/-- Move trailing zeros of the digits into the exponent, at most `n` of them. -/
def strip : (n : Nat) → Nat × Int → Nat × Int
  | 0, r => r
  | n + 1, (d, i) => if d % 10 = 0 then strip n (d / 10, i + 1) else (d, i)

/-- The shortest decimal `d * 10 ^ i` that reads back as `m * 2 ^ q`, for a positive `m`. The
exact value stands in should seventeen digits not do. -/
def shortest (m : Nat) (q : Int) (narrow : Bool) : Nat × Int :=
  let k := scale m q
  match (List.range 17).findSome? fun n => onGrid? m q narrow (k - (n + 1 : Nat)) with
  | some r => strip 17 r
  | none => (floorAt m q (min q 0), min q 0)

/-! ## Layout -/

/-- Digits `ds` times `10 ^ i` with a point and at least one digit on either side of it. -/
def positional (ds : List Char) (i : Int) : List Char :=
  if 0 ≤ i then ds ++ List.replicate i.toNat '0' ++ ['.', '0']
  else
    let places := (-i).toNat
    if places < ds.length then
      ds.take (ds.length - places) ++ '.' :: ds.drop (ds.length - places)
    else '0' :: '.' :: (List.replicate (places - ds.length) '0' ++ ds)

/-- Digits `ds` times `10 ^ i` with the point after the first digit, if more follow, and the
exponent behind an `e`. -/
def scientific (ds : List Char) (i : Int) : List Char :=
  let exponent := (toString (i + ds.length - 1)).toList
  match ds with
  | d :: e :: es => d :: '.' :: e :: es ++ 'e' :: exponent
  | ds => ds ++ 'e' :: exponent

/-- A double as text. A number whose leading digit stands at `10 ^ e` is written positionally if
`plain e` holds, and with an exponent otherwise. -/
def text (plain : Int → Bool) (x : Double) : String :=
  if x.isNaN then "NaN"
  else
    let body :=
      if x.magnitude = BinaryFormat.double.infinity then ['i', 'n', 'f']
      else if x.magnitude = 0 then ['0', '.', '0']
      else
        let (m, q) := BinaryFormat.double.decode x.magnitude
        let narrow := x.magnitude % 2 ^ (52 : Nat) = 0 && 2 ^ (53 : Nat) ≤ x.magnitude
        let (d, i) := shortest m q narrow
        let ds := Nat.toDigits 10 d
        if plain (i + ds.length - 1) then positional ds i else scientific ds i
    String.ofList (if x.negative then '-' :: body else body)

/-- Doubles in the written form of values: positional from `0.0001` up to below `10 ^ 16`. -/
def describe (x : Double) : String := text (fun e => -5 < e && e < 16) x

/-- Doubles without an exponent. -/
def plain (x : Double) : String := text (fun _ => true) x

end DBus.Decimal
