import DBus.Proofs.Extent

/-!
# Cursors on a machine

The operations on a cursor once more, the way a machine with 64-bit numbers takes them. Every sum
may overflow, every difference may fall below zero, every place in the body and in the signature
may be out of range, and no type may end where one is cut out of a signature. Each of these is a
`Fault` of its own, told apart from the errors with which an operation refuses its input.

An operation is free of faults where it does as the plain one does, which has no faults to run
into (`plain`). The lemmas of this file say for the smallest steps when that is so; a composed
operation does as the plain one if its first step does, and the rest does after every result of
it (`bind_plain`).
-/

namespace DBus

-- `^` is the power of the standard library, whichever others are in scope.
attribute [local instance (1100)] instPowNat

/-- Why an operation on a machine ends without a result. -/
inductive Fault
  /-- The input is refused. -/
  | refused (error : Error)
  /-- A sum or a difference is no number of 64 bits. -/
  | overflow
  /-- There are no bytes at a place. -/
  | outOfRange
  /-- An alignment is no power of two. -/
  | alignment
  /-- No type ends in a signature. -/
  | noTypeEnd
  deriving Repr

namespace Checked

/-- An operation that refuses its input or succeeds. -/
def plain {α : Type} (x : Except Error α) : Except Fault α := x.mapError .refused

/-! ## Numbers and bytes -/

/-- A sum, which may overflow. -/
def add (a b : Nat) : Except Fault Nat :=
  if a + b < 2 ^ (64 : Nat) then .ok (a + b) else .error .overflow

/-- A difference, which may fall below zero. -/
def sub (a b : Nat) : Except Fault Nat :=
  if b ≤ a then .ok (a - b) else .error .overflow

/-- The least multiple of a power of two from `n` on: the bits below it are cleared in a sum. -/
def roundUp (n alignment : Nat) : Except Fault Nat := do
  let mask ← sub alignment 1
  if alignment &&& mask ≠ 0 then throw .alignment
  let top ← add n mask
  return top - top % alignment

/-- The byte at a place. -/
def byteAt (bs : Bytes) (i : Nat) : Except Fault UInt8 :=
  match bs[i]? with
  | some b => .ok b
  | none => .error .outOfRange

/-- The bytes from `start` up to `stop`. -/
def between (bs : Bytes) (start stop : Nat) : Except Fault Bytes :=
  if start ≤ stop ∧ stop ≤ bs.length then .ok ((bs.take stop).drop start)
  else .error .outOfRange

/-- Where the type that starts at `start` ends, which is taken to exist. -/
def typeEnd (signature : Bytes) (start : Nat) : Except Fault Nat :=
  (DBus.typeEnd signature start).mapError fun _ => .noTypeEnd

/-! ## Looking at a value -/

section

variable (r : Reader)

/-- The sum of a place and a length is asked for an overflow here. -/
def slice (start length : Nat) : Except Fault Bytes :=
  if start + length < 2 ^ (64 : Nat) then
    if r.data.length < start + length then
      .error (.refused (.indexOutOfBounds (start + length)))
    else between r.data start (start + length)
  else .error (.refused (.indexOutOfBounds start))

/-- `Reader.number` on a machine. -/
def number (start width : Nat) : Except Fault Nat := do
  let bs ← slice r start width
  return r.endian.decode (← between bs 0 width)

/-- `Reader.nulTerminated` on a machine. -/
def nulTerminated (start length : Nat) : Except Fault Bytes := do
  let bs ← slice r start (← add length 1)
  if (← byteAt bs length) = 0 then between bs 0 length
  else throw (.refused (.missingNul (← add start length)))

/-- `Reader.currentSignature` on a machine. -/
def currentSignature : Except Fault Bytes := do
  discard (plain r.require)
  between r.signature r.ix (← typeEnd r.signature r.ix)

/-- `Reader.word` on a machine. -/
def word : Except Fault Word := do
  match ← plain r.require with
  | .basic (.fixed c) =>
    let bs ← slice r (← roundUp r.pos c.size) c.size
    plain (r.endian.decodeWord c (← between bs 0 c.size))
  | c => throw (.refused (.typeMismatch (.fixedValue c)))

/-- `Reader.textExtent` on a machine. -/
def textExtent : TextCode → Except Fault (Nat × Nat)
  | .signature => do
    let length ← number r r.pos 1
    return (← add r.pos 1, length)
  | _ => do
    let start ← roundUp r.pos 4
    let length ← number r start 4
    return (← add start 4, length)

/-- `Reader.text` on a machine. -/
def text : Except Fault String := do
  match ← plain r.require with
  | .basic (.text c) =>
    let (start, length) ← textExtent r c
    let bs ← nulTerminated r start length
    let s ← plain (readText bs)
    if bs.contains 0 then throw (.refused (.typeMismatch (.nulInText s))) else return s
  | c => throw (.refused (.typeMismatch (.textValue c)))

/-! ## Entering a container -/

/-- `Reader.enterArray` on a machine. -/
def enterArray : Except Fault Reader := do
  let start ← roundUp r.pos 4
  let length ← number r start 4
  if maxArrayLength < length then throw (.refused (.arrayTooLong length))
  let elementStart ← add r.ix 1
  let element ← between r.signature elementStart (← typeEnd r.signature elementStart)
  let alignment := ((TypeCode.ofByte? (← byteAt element 0)).map TypeCode.alignment).getD 1
  let start ← roundUp (← add start 4) alignment
  discard (slice r start length)
  plain (r.nested start (← add start length) element true)

/-- `Reader.enterStruct` on a machine, where the brackets are cut off by places in the signature. -/
def enterStruct : Except Fault Reader := do
  let stop ← typeEnd r.signature r.ix
  let inner ← between r.signature (← add r.ix 1) (← sub stop 1)
  let start ← roundUp r.pos 8
  if r.data.length < start then throw (.refused (.indexOutOfBounds start))
  plain (r.nested start r.data.length inner false)

/-- `Reader.enterVariant` on a machine. -/
def enterVariant : Except Fault Reader := do
  let length ← number r r.pos 1
  let signature ← nulTerminated r (← add r.pos 1) length
  discard (plain (variantType signature))
  plain (r.nested (← add (← add r.pos length) 2) r.data.length signature false)

/-- `Reader.enter` on a machine. -/
def enter : Except Fault Reader := do
  match ← plain r.require with
  | .array => enterArray r
  | .struct | .dictEntry => enterStruct r
  | .variant => enterVariant r
  | c => throw (.refused (.typeMismatch (.containerValue c)))

/-! ## Moving on -/

/-- `Reader.moveTo` on a machine. -/
def moveTo (pos : Nat) : Except Fault Reader := do
  return { r with pos := pos, ix := ← typeEnd r.signature r.ix }

end

/-- `Reader.lastEnd` on a machine. -/
def lastEnd (endOf : Reader → Except Fault Nat) : (n : Nat) → Reader → Except Fault Nat
  | 0, r => .ok r.pos
  | n + 1, r =>
    match r.current with
    | none => .ok r.pos
    | some _ => do lastEnd endOf n (← plain (← moveTo r (← endOf r)).rewind)

/-- `Reader.endBy` on a machine. -/
def endBy (endOf : Reader → Except Fault Nat) (r : Reader) : Except Fault Nat := do
  match ← plain r.require with
  | .basic (.fixed c) =>
    let start ← roundUp r.pos c.size
    discard (slice r start c.size)
    add start c.size
  | .basic (.text c) =>
    let (start, length) ← textExtent r c
    discard (slice r start (← add length 1))
    add (← add start length) 1
  | .array => return (← enter r).stop
  | .struct | .dictEntry | .variant =>
    let contents ← enter r
    lastEnd endOf contents.signature.length contents

/-- `Reader.endWithin` on a machine. -/
def endWithin : (levels : Nat) → Reader → Except Fault Nat
  | 0 => endBy fun _ => .error (.refused (.depthExceeded maxNesting))
  | levels + 1 => endBy (endWithin levels)

/-- `Reader.valueEnd` on a machine. -/
def valueEnd (r : Reader) : Except Fault Nat := endWithin r.levels r

/-- `Reader.next` on a machine. Where it fails, the cursor is left where it has come to. -/
def next (r : Reader) : Except Fault Bool × Reader :=
  match do moveTo r (← valueEnd r) with
  | .error e => (.error e, r)
  | .ok moved =>
    match moved.rewind with
    | .error e => (.error (.refused e), moved)
    | .ok r => (.ok r.current.isSome, r)

/-! ## Steps without a fault -/

theorem plain_ok {α : Type} (a : α) : plain (.ok a) = .ok a := rfl

/-- What is done after a step need be free of faults only where the step succeeds. -/
theorem bind_plain {α β : Type} {x : Except Fault α} {y : Except Error α}
    {f : α → Except Fault β} {g : α → Except Error β} (hx : x = plain y)
    (hf : ∀ a, y = .ok a → f a = plain (g a)) : (x >>= f) = plain (y >>= g) := by
  subst hx
  cases y with
  | error e => rfl
  | ok a => exact hf a rfl

/-- The result does not matter. -/
theorem discard_plain {α : Type} {x : Except Fault α} {y : Except Error α} (hx : x = plain y) :
    (discard x : Except Fault PUnit) = plain (discard y) := by
  subst hx
  cases y <;> rfl

/-- A sum that does not overflow is the sum. -/
theorem add_eq {a b : Nat} (h : a + b < 2 ^ (64 : Nat)) : add a b = .ok (a + b) := if_pos h

/-- A difference that does not fall below zero is the difference. -/
theorem sub_eq {a b : Nat} (h : b ≤ a) : sub a b = .ok (a - b) := if_pos h

/-- A part of the bytes is cut out if its ends are in order and within the bytes. -/
theorem between_eq {bs : Bytes} {start stop : Nat} (hle : start ≤ stop) (hstop : stop ≤ bs.length) :
    between bs start stop = .ok ((bs.take stop).drop start) := if_pos ⟨hle, hstop⟩

theorem between_zero_eq {bs : Bytes} {n : Nat} (hn : n ≤ bs.length) :
    between bs 0 n = .ok (bs.take n) := between_eq (Nat.zero_le n) hn

/-- The alignments of types are powers of two, and rounding up to one adds at most seven. -/
theorem roundUp_eq {n alignment : Nat}
    (ha : alignment = 1 ∨ alignment = 2 ∨ alignment = 4 ∨ alignment = 8)
    (hn : n + 7 < 2 ^ (64 : Nat)) :
    roundUp n alignment = .ok (alignUp n alignment) ∧ alignUp n alignment ≤ n + 7 := by
  have hup : ∀ a, 0 < a → a ≤ 8 → a &&& (a - 1) = 0 →
      roundUp n a = .ok (n + (a - 1) - (n + (a - 1)) % a) := fun a hpos hle hmask => by
    simp only [roundUp, sub_eq hpos, ok_bind, hmask, ne_eq, not_true_eq_false, if_false]
    rw [add_eq (by omega)]
    rfl
  rcases ha with rfl | rfl | rfl | rfl <;>
  · rw [hup _ (by decide) (by decide) (by decide), Except.ok.injEq, alignUp, padding]
    omega

/-- The sizes there are, each a power of two. -/
theorem size_cases (c : FixedCode) : c.size = 1 ∨ c.size = 2 ∨ c.size = 4 ∨ c.size = 8 := by
  rcases c with _ | k | _
  · exact .inr (.inr (.inl rfl))
  · cases k <;> simp [FixedCode.size, IntKind.size]
  · exact .inr (.inr (.inr rfl))

/-- The alignments there are, each a power of two. -/
theorem alignment_cases (c : TypeCode) :
    c.alignment = 1 ∨ c.alignment = 2 ∨ c.alignment = 4 ∨ c.alignment = 8 := by
  rcases c with (c | _ | _ | _) | _ | _ | _ | _
  case basic.fixed => exact size_cases c
  all_goals simp [TypeCode.alignment]

end Checked

end DBus
