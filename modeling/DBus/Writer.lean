import DBus.Argument
import DBus.Codec
import DBus.Message

/-!
# Appending to a body

A `Writer` is a place where values are appended to a body: at the top, where each value also
adds its type to the signature, or inside a container. An operation is a `Write`: it extends the
message, and may fail after having extended it, for nothing is ever taken back.

A container is opened, filled through the writer that opening gives, and closed. Closing an
array fills in its length. At most 64 containers are open at a time.
-/

namespace DBus

/-- An operation on a message that can fail and then leaves what it has written. -/
abbrev Write := EStateM Error Message

/-- Where the length of an open array stands, and where its elements start. -/
structure ArrayFrame where
  lengthAt : Nat
  start : Nat
  deriving DecidableEq, Repr

/-- A place where values are appended. -/
structure Writer where
  endian : Endian
  /-- Each value adds its type to the signature. -/
  records : Bool
  /-- The array that is being filled, if it is one. -/
  array : Option ArrayFrame
  /-- How many levels of containers may still be opened. -/
  levels : Nat
  deriving DecidableEq, Repr

namespace Writer

/-- The end of a body. -/
def top (e : Endian) : Writer := ⟨e, true, none, maxNesting⟩

/-! ## Bytes -/

/-- Append bytes to the body. -/
def emit (bs : Bytes) : Write Unit := modify fun m => { m with data := m.data ++ bs }

/-- Append zero bytes up to a multiple of the alignment. -/
def align (alignment : Nat) : Write Unit := modify fun m =>
  { m with data := m.data ++ List.replicate (padding m.data.length alignment) 0 }

/-- The length of the body. -/
def position : Write Nat := return (← get).data.length

/-- Add a type to the signature, at the top. -/
def record (w : Writer) (signature : Bytes) : Write Unit :=
  if w.records then modify fun m => { m with signature := m.signature ++ signature } else pure ()

/-! ## Basic values -/

/-- Append a scalar. -/
def putWord (w : Writer) (c : FixedCode) (word : Word) : Write Unit := do
  align c.size
  emit (w.endian.encodeWord c word)
  w.record [(TypeCode.fixed c).byte]

/-- Append the length of a text, in as many bytes as its type has for it. -/
def putLength (w : Writer) (c : TextCode) (s : String) : Write Unit :=
  let length := (utf8 s).length
  match c with
  | .signature =>
    if length ≤ maxSignatureLength then emit [.ofNat length]
    else throw (.malformedSignature s (.tooLong length))
  | .string | .objectPath => do
    align 4
    emit (w.endian.encode 4 length)

/-- Append a text. It may not have a zero byte, which ends it. -/
def putText (w : Writer) (c : TextCode) (s : String) : Write Unit := do
  if (utf8 s).contains 0 then throw (.typeMismatch (.nulInText s))
  w.putLength c s
  emit (utf8 s ++ [0])
  w.record [(TypeCode.text c).byte]

/-- Append a word as a value of a type, which has to be of fixed width. -/
def appendWord (w : Writer) (c : TypeCode) (word : Word) : Write Unit :=
  match c with
  | .basic (.fixed c) => w.putWord c word
  | c => throw (.typeMismatch (.fixedType c))

/-- Append a text as a value of a type, which has to be one of texts. -/
def appendText (w : Writer) (c : TypeCode) (s : String) : Write Unit :=
  match c with
  | .basic (.text c) => w.putText c s
  | c =>
    if (utf8 s).contains 0 then throw (.typeMismatch (.nulInText s))
    else throw (.typeMismatch (.textType c))

/-! ## Containers -/

/-- A writer one level deeper, if there is one. -/
def nested (w : Writer) (array : Option ArrayFrame) : Write Writer :=
  match w.levels with
  | 0 => throw (.depthExceeded maxNesting)
  | levels + 1 => return ⟨w.endian, false, array, levels⟩

/-- Begin an array of which the signature of the elements is given. -/
def openArray (w : Writer) (element : Bytes) : Write Writer := do
  match element.head?.bind TypeCode.ofByte? with
  | none => throw (.malformedSignature (shownText element) .missingArrayElementType)
  | some c =>
    w.record (TypeCode.array.byte :: element)
    align 4
    let lengthAt ← position
    emit (List.replicate 4 0)
    align c.alignment
    let start ← position
    w.nested (some ⟨lengthAt, start⟩)

/-- Begin a struct of the given signature. -/
def openStruct (w : Writer) (signature : Bytes) : Write Writer := do
  w.record signature
  align 8
  w.nested none

/-- Begin a dict entry. Its type has been recorded with the array it is an element of. -/
def openDictEntry (w : Writer) : Write Writer := do
  align 8
  w.nested none

/-- Begin a variant, of which the signature of the contents is given. -/
def openVariant (w : Writer) (contents : Bytes) : Write Writer := do
  match parseType contents with
  | .error fault => throw (.malformedVariant (shownText contents) fault)
  | .ok _ =>
    w.record [TypeCode.variant.byte]
    emit (.ofNat contents.length :: (contents ++ [0]))
    w.nested none

/-- Replace the bytes from `start` on by as many given ones. -/
def patch (data : Bytes) (start : Nat) (bs : Bytes) : Bytes :=
  data.take start ++ bs ++ data.drop (start + bs.length)

/-- End a container. An array gets its length. -/
def close (w : Writer) : Write Unit := do
  match w.array with
  | none => pure ()
  | some frame =>
    let length := (← position) - frame.start
    if maxArrayLength < length then throw (.arrayTooLong length)
    modify fun m => { m with data := patch m.data frame.lengthAt (w.endian.encode 4 length) }

end Writer

end DBus
