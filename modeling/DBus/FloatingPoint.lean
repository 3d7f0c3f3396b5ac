/-!
# Binary floating point

A double is kept as its 64 bits, so that every payload of a NaN survives. What the library does
with doubles is said on exact numbers: a finite magnitude is `m * 2 ^ q` (`BinaryFormat.decode`),
and `BinaryFormat.round` gives the bits of the nearest magnitude of a format, an even
significand on a tie. With them integers become doubles, and doubles and singles each other.
-/

namespace DBus

-- `^` is the power of the standard library, whichever others are in scope.
attribute [local instance (1100)] instPowNat

/-! ## Formats -/

/-- `num / den` to the nearest integer, the even one on a tie. -/
def divRoundEven (num den : Nat) : Nat :=
  let n := num / den
  let r := num % den
  if 2 * r < den || (2 * r = den && n % 2 = 0) then n else n + 1

/-- A binary interchange format, by the bits of its significand (the hidden one included) and
of its exponent field. -/
structure BinaryFormat where
  precision : Nat
  exponentBits : Nat

namespace BinaryFormat

/-- The format of 64 bits. -/
def double : BinaryFormat := ⟨53, 11⟩

/-- The format of 32 bits. -/
def single : BinaryFormat := ⟨24, 8⟩

variable (f : BinaryFormat)

/-- Where the sign bit stands. -/
def signBit : Nat := 2 ^ (f.precision - 1 + f.exponentBits)

/-- The magnitude bits of infinity. Larger ones are no numbers. -/
def infinity : Nat := (2 ^ f.exponentBits - 1) * 2 ^ (f.precision - 1)

/-- The least positive magnitude is `2 ^ f.unit`. -/
def unit : Int := 2 - 2 ^ (f.exponentBits - 1) - (f.precision - 1 : Nat)

/-- The number `m * 2 ^ q` of finite magnitude bits. -/
def decode (bits : Nat) : Nat × Int :=
  let e := bits / 2 ^ (f.precision - 1)
  let fraction := bits % 2 ^ (f.precision - 1)
  if e = 0 then (fraction, f.unit) else (fraction + 2 ^ (f.precision - 1), f.unit + (e - 1 : Nat))

/-- The magnitude bits nearest to `m * 2 ^ q`. -/
def round (m : Nat) (q : Int) : Nat :=
  if m = 0 then 0
  else
    let u := max (m.log2 + 1 + q - f.precision) f.unit
    let n := if u ≤ q then m * 2 ^ (q - u).toNat else divRoundEven m (2 ^ (u - q).toNat)
    min ((u - f.unit).toNat * 2 ^ (f.precision - 1) + n) f.infinity

/-- Magnitude bits of `f` as the nearest ones of `g`. A NaN stays one: it keeps the upper bits
of its payload and becomes quiet. -/
def convert (g : BinaryFormat) (bits : Nat) : Nat :=
  if bits < f.infinity then g.round (f.decode bits).1 (f.decode bits).2
  else if bits = f.infinity then g.infinity
  else
    let payload := bits % 2 ^ (f.precision - 1) * 2 ^ (g.precision - 1) / 2 ^ (f.precision - 1)
    g.infinity + 2 ^ (g.precision - 2) + payload % 2 ^ (g.precision - 2)

end BinaryFormat

/-! ## Singles and doubles -/

/-- A number of 64 bits, by its bits. -/
structure Double where
  bits : UInt64
  deriving DecidableEq, Repr

/-- A number of 32 bits, by its bits. -/
structure Single where
  bits : UInt32
  deriving DecidableEq, Repr

/-- A sign and magnitude bits as one pattern of the format. -/
def BinaryFormat.pattern (f : BinaryFormat) (negative : Bool) (magnitude : Nat) : Nat :=
  if negative then f.signBit + magnitude else magnitude

namespace Double

/-- Whether the sign bit is set. -/
def negative (d : Double) : Bool := 2 ^ (63 : Nat) ≤ d.bits.toNat

/-- The bits below the sign. -/
def magnitude (d : Double) : Nat := d.bits.toNat % 2 ^ (63 : Nat)

/-- Not a number. -/
def isNaN (d : Double) : Bool := BinaryFormat.double.infinity < d.magnitude

/-- Equality as of numbers: both zeros are equal, and a NaN is equal to nothing. -/
def sameNumber (a b : Double) : Bool :=
  !a.isNaN && !b.isNaN && (a.bits = b.bits || (a.magnitude = 0 && b.magnitude = 0))

/-- The double nearest to an integer. -/
def ofInt (n : Int) : Double :=
  ⟨.ofNat (BinaryFormat.double.pattern (n < 0) (BinaryFormat.double.round n.natAbs 0))⟩

/-- The single nearest to a double. -/
def toSingle (d : Double) : Single :=
  ⟨.ofNat (BinaryFormat.single.pattern d.negative
    (BinaryFormat.double.convert .single d.magnitude))⟩

end Double

namespace Single

/-- The single nearest to an integer. -/
def ofInt (n : Int) : Single :=
  ⟨.ofNat (BinaryFormat.single.pattern (n < 0) (BinaryFormat.single.round n.natAbs 0))⟩

/-- The double of the same value. -/
def toDouble (s : Single) : Double :=
  ⟨.ofNat (BinaryFormat.double.pattern (2 ^ (31 : Nat) ≤ s.bits.toNat)
    (BinaryFormat.single.convert .double (s.bits.toNat % 2 ^ (31 : Nat))))⟩

end Single

end DBus
