import DBus.Error
import DBus.Scalar

/-!
# Fixed-width encoding

Numbers are laid out in a byte order (`Endian`) and a width. `Endian.decode_encode` and
`Endian.encode_decode` say that reading and writing are inverse. A boolean travels as the number
zero or one in four bytes and every other number is refused (`Endian.decodeWord`); the other
scalars travel as the low bytes of their word.
-/

namespace DBus

-- `^` is the power of the standard library, whichever others are in scope.
attribute [local instance (1100)] instPowNat

/-- The order of the bytes of a number. -/
inductive Endian
  | little | big
  deriving DecidableEq, Repr

/-! ## Numbers -/

/-- The low `width` bytes of `n`, lowest first. -/
def lowBytes : (width : Nat) → (n : Nat) → Bytes
  | 0, _ => []
  | width + 1, n => .ofNat n :: lowBytes width (n / 256)

/-- The number of which the bytes are given, lowest first. -/
def fromLowBytes : Bytes → Nat
  | [] => 0
  | b :: bs => b.toNat + 256 * fromLowBytes bs

theorem length_lowBytes (width n : Nat) : (lowBytes width n).length = width := by
  induction width generalizing n with
  | zero => rfl
  | succ width ih => simp [lowBytes, ih]

theorem fromLowBytes_lowBytes (width n : Nat) :
    fromLowBytes (lowBytes width n) = n % 256 ^ width := by
  induction width generalizing n with
  | zero => simp [lowBytes, fromLowBytes, Nat.mod_one]
  | succ width ih =>
    rw [lowBytes, fromLowBytes, ih, UInt8.toNat_ofNat', Nat.pow_succ' (n := width), Nat.mod_mul]

theorem fromLowBytes_lt (bs : Bytes) : fromLowBytes bs < 256 ^ bs.length := by
  induction bs with
  | nil => simp [fromLowBytes]
  | cons b bs ih =>
    have := b.toNat_lt
    simp only [fromLowBytes, List.length_cons, Nat.pow_succ]
    omega

theorem lowBytes_fromLowBytes (bs : Bytes) : lowBytes bs.length (fromLowBytes bs) = bs := by
  induction bs with
  | nil => rfl
  | cons b bs ih =>
    have h : (b.toNat + 256 * fromLowBytes bs) / 256 = fromLowBytes bs := by
      have := b.toNat_lt
      omega
    simp only [List.length_cons, lowBytes, fromLowBytes, h, ih, List.cons.injEq, and_true]
    apply UInt8.toNat_inj.mp
    have := b.toNat_lt
    simp only [UInt8.toNat_ofNat']
    omega

namespace Endian

/-- The low `width` bytes of `n`. -/
def encode (e : Endian) (width n : Nat) : Bytes :=
  match e with
  | little => lowBytes width n
  | big => (lowBytes width n).reverse

/-- The number of which the bytes are given. -/
def decode (e : Endian) (bs : Bytes) : Nat :=
  match e with
  | little => fromLowBytes bs
  | big => fromLowBytes bs.reverse

theorem length_encode (e : Endian) (width n : Nat) : (e.encode width n).length = width := by
  cases e <;> simp [encode, length_lowBytes]

theorem decode_encode (e : Endian) (width n : Nat) :
    e.decode (e.encode width n) = n % 256 ^ width := by
  cases e <;> simp [encode, decode, fromLowBytes_lowBytes]

theorem decode_lt (e : Endian) (bs : Bytes) : e.decode bs < 256 ^ bs.length := by
  cases e
  · exact fromLowBytes_lt bs
  · simpa [decode] using fromLowBytes_lt bs.reverse

theorem encode_decode (e : Endian) (bs : Bytes) : e.encode bs.length (e.decode bs) = bs := by
  cases e
  · exact lowBytes_fromLowBytes bs
  · have h := lowBytes_fromLowBytes bs.reverse
    simp only [List.length_reverse] at h
    simp [encode, decode, h]

/-! ## Words -/

/-- A word as a scalar of the type is laid out. -/
def encodeWord (e : Endian) : FixedCode → Word → Bytes
  | .boolean, w => e.encode FixedCode.boolean.size (Word.ofBool w.toBool).toNat
  | c, w => e.encode c.size w.toNat

/-- The word of a scalar of the type, from as many bytes as the type is wide. -/
def decodeWord (e : Endian) (c : FixedCode) (bs : Bytes) : Except Error Word :=
  match c, e.decode bs with
  | .boolean, 0 => .ok (.ofBool false)
  | .boolean, 1 => .ok (.ofBool true)
  | .boolean, n => .error (.invalidBoolean n)
  | _, n => .ok (.ofNat n)

theorem length_encodeWord (e : Endian) (c : FixedCode) (w : Word) :
    (e.encodeWord c w).length = c.size := by
  cases c <;> exact length_encode ..

end Endian

end DBus
