import DBus.Argument
import DBus.Codec
import DBus.Message

/-!
# Reading cursors

A `Reader` stands at one value of a body and knows the signature of the values to come. Looking
at the value leaves the cursor where it is (`Reader.word`, `Reader.text`), `Reader.next` moves it
past the value, and `Reader.enter` gives a second cursor, over the contents of a container.

Positions count from the start of the whole body, since padding does. The cursor over an array
repeats the element type up to the end of the array; any other cursor follows its signature to
the end. A cursor is at most 64 containers deep, and skipping a value looks at no more levels
than are left.
-/

namespace DBus

/-! ## Types in a signature -/

/-- How many bytes the first type of a signature takes, found by its brackets alone, of which
`nesting` are open already. -/
def typeWidth? (nesting : Nat) : Bytes → Option Nat
  | [] => none
  | b :: bs =>
    if b = TypeCode.array.byte then (typeWidth? nesting bs).map (· + 1)
    else
      let nesting :=
        if b = TypeCode.struct.byte || b = TypeCode.dictEntry.byte then nesting + 1
        else if b = Ty.structEnd || b = Ty.entryEnd then nesting - 1
        else nesting
      if nesting = 0 then some 1 else (typeWidth? nesting bs).map (· + 1)

/-- Where the type that starts at `start` ends. -/
def typeEnd (signature : Bytes) (start : Nat) : Except Error Nat :=
  match typeWidth? 0 (signature.drop start) with
  | some width => .ok (start + width)
  | none => .error (.malformedSignature (shownText signature) .structStartedButNotEnded)

/-- The type of the contents of a variant. -/
def variantType (signature : Bytes) : Except Error Ty := do
  let s ← readText signature
  match parseType signature with
  | .ok t => return t
  | .error fault => throw (.malformedVariant s fault)

/-! ## Cursors -/

/-- A place in a message body. -/
structure Reader where
  endian : Endian
  data : Bytes
  pos : Nat
  /-- The end of the array that the cursor is in, or else of the body. -/
  stop : Nat
  /-- The signature that the cursor follows. -/
  signature : Bytes
  /-- The place of the current type in the signature. -/
  ix : Nat
  /-- The signature is that of an array element and holds again for every element. -/
  repeats : Bool
  /-- How many levels of containers may still be entered. -/
  levels : Nat
  deriving DecidableEq, Repr

/-- A cursor at the start of a body. -/
def Message.reader (m : Message) (e : Endian) : Except Error Reader := do
  discard (readText m.signature)
  Argument.checkSignature m.signature
  return ⟨e, m.data, 0, m.data.length, m.signature, 0, false, maxNesting⟩

namespace Reader

/-- The type of the current value, if there is one. -/
def current (r : Reader) : Option TypeCode :=
  if r.repeats && r.stop ≤ r.pos then none else r.signature[r.ix]?.bind TypeCode.ofByte?

/-- The type of the current value, which there has to be. -/
def require (r : Reader) : Except Error TypeCode :=
  match r.current with
  | some c => .ok c
  | none => .error .cursorExhausted

/-- The signature of the current value. -/
def currentSignature (r : Reader) : Except Error Bytes := do
  discard r.require
  let stop ← typeEnd r.signature r.ix
  return (r.signature.take stop).drop r.ix

/-- `length` bytes of the body from `start` on. -/
def slice (r : Reader) (start length : Nat) : Except Error Bytes :=
  if start + length ≤ r.data.length then .ok ((r.data.drop start).take length)
  else .error (.indexOutOfBounds (start + length))

/-- The number in `width` bytes from `start` on. -/
def number (r : Reader) (start width : Nat) : Except Error Nat := do
  return r.endian.decode (← r.slice start width)

/-- `length` bytes from `start` on, behind which stands a zero byte. -/
def nulTerminated (r : Reader) (start length : Nat) : Except Error Bytes := do
  let bs ← r.slice start (length + 1)
  if bs[length]? = some 0 then return bs.take length else throw (.missingNul (start + length))

/-! ## Looking at a value -/

/-- The current value, which has to be of fixed width. -/
def word (r : Reader) : Except Error Word := do
  match ← r.require with
  | .basic (.fixed c) => r.endian.decodeWord c (← r.slice (alignUp r.pos c.size) c.size)
  | c => throw (.typeMismatch (.fixedValue c))

/-- Where the bytes of a text at the cursor start, and how many they are. -/
def textExtent (r : Reader) : TextCode → Except Error (Nat × Nat)
  | .signature => do return (r.pos + 1, ← r.number r.pos 1)
  | _ => do
    let start := alignUp r.pos 4
    return (start + 4, ← r.number start 4)

/-- The current value, which has to be a text. -/
def text (r : Reader) : Except Error String := do
  match ← r.require with
  | .basic (.text c) =>
    let (start, length) ← r.textExtent c
    let bs ← r.nulTerminated start length
    let s ← readText bs
    if bs.contains 0 then throw (.typeMismatch (.nulInText s)) else return s
  | c => throw (.typeMismatch (.textValue c))

/-! ## Entering a container -/

/-- A cursor one level deeper, if there is one. -/
def nested (r : Reader) (pos stop : Nat) (signature : Bytes) (repeats : Bool) :
    Except Error Reader :=
  match r.levels with
  | 0 => .error (.depthExceeded maxNesting)
  | levels + 1 => .ok ⟨r.endian, r.data, pos, stop, signature, 0, repeats, levels⟩

/-- A cursor over the elements of the array at the cursor. They start at a multiple of their own
alignment, and their length does not count the padding in front. -/
def enterArray (r : Reader) : Except Error Reader := do
  let start := alignUp r.pos 4
  let length ← r.number start 4
  if maxArrayLength < length then throw (.arrayTooLong length)
  let stop ← typeEnd r.signature (r.ix + 1)
  let element := (r.signature.take stop).drop (r.ix + 1)
  let alignment := ((element.head?.bind TypeCode.ofByte?).map TypeCode.alignment).getD 1
  let start := alignUp (start + 4) alignment
  discard (r.slice start length)
  r.nested start (start + length) element true

/-- A cursor over the fields of the struct, or the key and value of the dict entry, at the
cursor. -/
def enterStruct (r : Reader) : Except Error Reader := do
  let stop ← typeEnd r.signature r.ix
  let start := alignUp r.pos 8
  if r.data.length < start then throw (.indexOutOfBounds start)
  r.nested start r.data.length ((r.signature.take (stop - 1)).drop (r.ix + 1)) false

/-- A cursor over the contents of the variant at the cursor. -/
def enterVariant (r : Reader) : Except Error Reader := do
  let length ← r.number r.pos 1
  let signature ← r.nulTerminated (r.pos + 1) length
  discard (variantType signature)
  r.nested (r.pos + length + 2) r.data.length signature false

/-- A cursor over the contents of the current value, which has to be a container. -/
def enter (r : Reader) : Except Error Reader := do
  match ← r.require with
  | .array => r.enterArray
  | .struct | .dictEntry => r.enterStruct
  | .variant => r.enterVariant
  | c => throw (.typeMismatch (.containerValue c))

/-! ## Moving on -/

/-- The cursor at the type that follows, with the position `pos`. -/
def moveTo (r : Reader) (pos : Nat) : Except Error Reader := do
  return { r with pos := pos, ix := ← typeEnd r.signature r.ix }

/-- Within an array the element type comes up again. The element may not reach beyond the end
of the array. -/
def rewind (r : Reader) : Except Error Reader :=
  if r.repeats then
    if r.pos ≤ r.stop then .ok { r with ix := 0 } else .error (.indexOutOfBounds r.pos)
  else .ok r

/-- Where the values of a cursor end, at most `n` of them, given where one value ends. -/
def lastEnd (endOf : Reader → Except Error Nat) : (n : Nat) → Reader → Except Error Nat
  | 0, r => .ok r.pos
  | n + 1, r =>
    match r.current with
    | none => .ok r.pos
    | some _ => do lastEnd endOf n (← (← r.moveTo (← endOf r)).rewind)

/-- Where the current value ends, given where the values one level deeper end. There are no
more of those than their signature has bytes. -/
def endBy (endOf : Reader → Except Error Nat) (r : Reader) : Except Error Nat := do
  match ← r.require with
  | .basic (.fixed c) =>
    let start := alignUp r.pos c.size
    discard (r.slice start c.size)
    return start + c.size
  | .basic (.text c) =>
    let (start, length) ← r.textExtent c
    discard (r.slice start (length + 1))
    return start + length + 1
  | .array => return (← r.enter).stop
  | .struct | .dictEntry | .variant =>
    let contents ← r.enter
    lastEnd endOf contents.signature.length contents

/-- Where the current value ends, looking at most `levels` levels deep. -/
def endWithin : (levels : Nat) → Reader → Except Error Nat
  | 0 => endBy fun _ => .error (.depthExceeded maxNesting)
  | levels + 1 => endBy (endWithin levels)

/-- Where the current value ends. -/
def valueEnd (r : Reader) : Except Error Nat := endWithin r.levels r

/-- The cursor past the current value. -/
def advance (r : Reader) : Except Error Reader := do
  (← r.moveTo (← r.valueEnd)).rewind

/-- Move the cursor past the current value, and tell whether another one follows. An element
that reaches beyond its array is an error that leaves the cursor behind that element; any other
error leaves it where it was. -/
def next (r : Reader) : Except Error Bool × Reader :=
  match do r.moveTo (← r.valueEnd) with
  | .error e => (.error e, r)
  | .ok moved =>
    match moved.rewind with
    | .error e => (.error e, moved)
    | .ok r => (.ok r.current.isSome, r)

/-- All of the body has to have been read. -/
def finish (r : Reader) : Except Error Unit :=
  if r.data.length ≤ r.pos then .ok () else .error (.leftoverData (r.data.length - r.pos))

end Reader

end DBus
