import DBus.FloatingPoint
import DBus.TypeCode

/-!
# Scalars and words

A `Scalar` is a value of a fixed-width type: a boolean, an integer within the bounds of its
kind, or a double. A `Word` is the 64-bit slot in which a native call holds a scalar. A
narrower scalar takes the low bits of its word, and the others are zero (`Scalar.toWord`).
Reading a word as a type (`Scalar.ofWord`) looks at the low bits alone; any word but zero is
true. `Scalar.ofWord_toWord` says that a scalar is what its word is read as.
-/

namespace DBus

-- `^` is the power of the standard library, whichever others are in scope.
attribute [local instance (1100)] instPowNat

/-! ## Words -/

/-- The slot of an unboxed scalar. -/
structure Word where
  bits : UInt64
  deriving DecidableEq, Repr

namespace Word

/-- The word with the low 64 bits of `n`. -/
def ofNat (n : Nat) : Word := ⟨.ofNat n⟩

/-- The word as a number. -/
def toNat (w : Word) : Nat := w.bits.toNat

/-- The word of an integer: its low bits in two's complement, as many as the kind has. -/
def ofInt (k : IntKind) (n : Int) : Word := ofNat (n % (2 ^ k.bits : Nat)).toNat

/-- The integer of kind `k` in the low bits of a word. -/
def toInt (k : IntKind) (w : Word) : Int :=
  let m := w.toNat % 2 ^ k.bits
  if (m : Int) < k.hi then m else m - (2 ^ k.bits : Nat)

theorem fits_toInt (k : IntKind) (w : Word) : k.Fits (w.toInt k) := by
  have h : w.toNat % 2 ^ k.bits < 2 ^ k.bits := Nat.mod_lt _ (Nat.two_pow_pos _)
  unfold toInt
  generalize w.toNat % 2 ^ k.bits = m at h
  cases k <;> simp [IntKind.Fits, IntKind.lo, IntKind.hi, IntKind.bits, IntKind.size,
    IntKind.signed] at h ⊢ <;> split <;> omega

theorem toInt_ofInt (k : IntKind) {n : Int} (h : k.Fits n) : (ofInt k n).toInt k = n := by
  unfold toInt ofInt ofNat toNat
  cases k <;> simp [IntKind.Fits, IntKind.lo, IntKind.hi, IntKind.bits, IntKind.size,
    IntKind.signed] at h ⊢ <;> split <;> omega

/-- Whether the word is not zero. -/
def toBool (w : Word) : Bool := w.bits ≠ 0

/-- One for true and zero for false. -/
def ofBool (b : Bool) : Word := ⟨if b then 1 else 0⟩

/-- `n` lower-case hexadecimal digits of the word, the leading ones included. -/
def hex (w : Word) : String :=
  let ds := Nat.toDigits 16 w.toNat
  String.ofList (List.replicate (16 - ds.length) '0' ++ ds)

/-- The word as messages write it. -/
def describe (w : Word) : String := "Word(0x" ++ w.hex ++ ")"

end Word

/-! ## Scalars -/

/-- A value of a fixed-width type. -/
inductive Scalar
  | boolean (b : Bool)
  | int (kind : IntKind) (n : Int) (fits : kind.Fits n)
  | double (d : Double)
  deriving DecidableEq, Repr

namespace Scalar

/-- The type of a scalar. -/
def code : Scalar → FixedCode
  | boolean _ => .boolean
  | int k _ _ => .int k
  | double _ => .double

/-- The integer `n` of kind `k`, if there is one. -/
def int? (k : IntKind) (n : Int) : Option Scalar :=
  if h : k.Fits n then some (int k n h) else none

/-- The number of an integer scalar. -/
def integer? : Scalar → Option Int
  | int _ n _ => some n
  | boolean _ | double _ => none

/-- The same value as a scalar of another type, if that type has it. An integer also makes the
nearest double. -/
def convert? : FixedCode → Scalar → Option Scalar
  | .boolean, boolean b => some (boolean b)
  | .double, double d => some (double d)
  | .double, int _ n _ => some (double (.ofInt n))
  | .int k, int _ n _ => int? k n
  | _, _ => none

/-- The word that holds a scalar. -/
def toWord : Scalar → Word
  | boolean b => .ofBool b
  | int k n _ => .ofInt k n
  | double d => ⟨d.bits⟩

/-- The scalar of a type that a word holds. -/
def ofWord : FixedCode → Word → Scalar
  | .boolean, w => boolean w.toBool
  | .int k, w => int k (w.toInt k) (w.fits_toInt k)
  | .double, w => double ⟨w.bits⟩

theorem code_ofWord (c : FixedCode) (w : Word) : (ofWord c w).code = c := by
  cases c <;> rfl

theorem ofWord_toWord (s : Scalar) : ofWord s.code s.toWord = s := by
  rcases s with b | ⟨k, n, h⟩ | d
  · cases b <;> rfl
  · simp [ofWord, code, toWord, Word.toInt_ofInt k h]
  · rfl

end Scalar

end DBus
