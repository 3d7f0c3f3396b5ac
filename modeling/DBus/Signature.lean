import DBus.Quoted
import DBus.Ty

/-!
# The signature grammar

A signature is a sequence of complete types. A complete type is a basic code, a variant, an
array `a` of a complete type, a dictionary `a` followed by a basic key and a complete value in
braces, or one or more complete types in parentheses. A signature has at most 255 bytes, and no
type is inside more than 32 arrays, or more than 32 structs and dict entries together.

`Scan` reads a signature byte by byte. It keeps the types completed so far and the containers
still open, innermost first; each byte opens a container, completes a type (and with it every
array waiting for its element) or is refused, so the first fault from the left is the one
reported. `parseTypes` reads any number of complete types and `parseType` exactly one.
-/

namespace DBus

/-- The longest signature in bytes. -/
def maxSignatureLength : Nat := 255

/-- How many arrays, and how many structs and dict entries, a type may be inside of, itself
included. -/
def maxTypeDepth : Nat := 32

/-! ## Faults -/

/-- Why a text is no signature. -/
inductive SignatureFault
  | empty
  | tooLong (length : Nat)
  | unknownTypeCode (byte : UInt8)
  | missingArrayElementType
  | structEndedButNotStarted
  | dictEntryEndedButNotStarted
  | structStartedButNotEnded
  | dictEntryStartedButNotEnded
  | structHasNoFields
  | dictEntryHasNoFields
  | dictEntryHasOnlyOneField
  | dictEntryHasTooManyFields
  | dictKeyMustBeBasicType
  | dictEntryNotInsideArray
  | exceededMaximumArrayRecursion
  | exceededMaximumStructRecursion
  | multipleCompleteTypes
  deriving DecidableEq, Repr

/-- The fault as told in a message. A byte beyond ASCII is shown as the character of its own
number, whatever character it is a part of. -/
def SignatureFault.message : SignatureFault → String
  | empty => "signature is empty"
  | tooLong length => s!"signature of {length} bytes is too long"
  | unknownTypeCode byte => "unknown type code " ++ quoteChar (Char.ofNat byte.toNat)
  | missingArrayElementType => "missing array element type"
  | structEndedButNotStarted => "struct ended but not started"
  | dictEntryEndedButNotStarted => "dict entry ended but not started"
  | structStartedButNotEnded => "struct started but not ended"
  | dictEntryStartedButNotEnded => "dict entry started but not ended"
  | structHasNoFields => "struct has no fields"
  | dictEntryHasNoFields => "dict entry has no fields"
  | dictEntryHasOnlyOneField => "dict entry has only one field"
  | dictEntryHasTooManyFields => "dict entry has too many fields"
  | dictKeyMustBeBasicType => "dict key must be a basic type"
  | dictEntryNotInsideArray => "dict entry not inside array"
  | exceededMaximumArrayRecursion => "exceeded maximum array recursion"
  | exceededMaximumStructRecursion => "exceeded maximum struct recursion"
  | multipleCompleteTypes => "expected a single complete type"

/-! ## The scan -/

/-- A container that waits for a type. -/
inductive Frame
  /-- An array without its element. -/
  | array
  /-- A struct with the fields read so far, newest first. -/
  | struct (fields : List Ty)
  /-- A dict entry with its key, waiting for the value. -/
  | entry (key : BasicCode)

/-- What the next byte is expected to be, inside the open containers, innermost first. -/
inductive Expected
  /-- The start of a type, or the end of an open struct that has fields. -/
  | type (frames : List Frame)
  /-- The key of a dict entry just opened. -/
  | key (frames : List Frame)
  /-- The end of a dict entry. -/
  | entryEnd (key : BasicCode) (value : Ty) (frames : List Frame)

/-- A signature read up to some byte. -/
structure Scan where
  /-- The complete types, newest first. -/
  done : List Ty
  expected : Expected

namespace Scan

/-- Nothing read yet. -/
def start : Scan := ⟨[], .type []⟩

/-- How many of the open containers are arrays. -/
def arrays : List Frame → Nat
  | [] => 0
  | .array :: fs => arrays fs + 1
  | _ :: fs => arrays fs

/-- How many of the open containers are structs or dict entries. -/
def structs : List Frame → Nat
  | [] => 0
  | .array :: fs => structs fs
  | _ :: fs => structs fs + 1

/-- Hand a type to the innermost open container. It completes an array at once. -/
def complete (done : List Ty) (t : Ty) : List Frame → Scan
  | [] => ⟨t :: done, .type []⟩
  | .array :: fs => complete done (.array t) fs
  | .struct ts :: fs => ⟨done, .type (.struct (t :: ts) :: fs)⟩
  | .entry k :: fs => ⟨done, .entryEnd k t fs⟩

/-- The fault of a byte that starts no type. -/
def strayByte (b : UInt8) : SignatureFault :=
  if b = Ty.structEnd then .structEndedButNotStarted
  else if b = Ty.entryEnd then .dictEntryEndedButNotStarted
  else .unknownTypeCode b

/-- A byte that is no type code, where a type is expected. -/
def close (done : List Ty) (b : UInt8) : List Frame → Except SignatureFault Scan
  | .array :: _ =>
    if b = Ty.structEnd || b = Ty.entryEnd then .error .missingArrayElementType
    else .error (strayByte b)
  | .struct ts :: fs =>
    if b = Ty.structEnd then
      if ts.isEmpty then .error .structHasNoFields
      else .ok (complete done (.struct ts.reverse) fs)
    else .error (strayByte b)
  | .entry _ :: _ =>
    if b = Ty.entryEnd then .error .dictEntryHasOnlyOneField else .error (strayByte b)
  | [] => .error (strayByte b)

/-- A type code, where a type is expected. -/
def openType (done : List Ty) (c : TypeCode) (fs : List Frame) : Except SignatureFault Scan :=
  match c with
  | .basic b => .ok (complete done (.basic b) fs)
  | .variant => .ok (complete done .variant fs)
  | .array =>
    if arrays fs < maxTypeDepth then .ok ⟨done, .type (.array :: fs)⟩
    else .error .exceededMaximumArrayRecursion
  | .struct =>
    if structs fs < maxTypeDepth then .ok ⟨done, .type (.struct [] :: fs)⟩
    else .error .exceededMaximumStructRecursion
  | .dictEntry =>
    match fs with
    | .array :: _ =>
      if structs fs < maxTypeDepth then .ok ⟨done, .key fs⟩
      else .error .exceededMaximumStructRecursion
    | _ => .error .dictEntryNotInsideArray

/-- Read one byte. -/
def step (s : Scan) (b : UInt8) : Except SignatureFault Scan :=
  match s.expected with
  | .type fs =>
    match TypeCode.ofByte? b with
    | some c => openType s.done c fs
    | none => close s.done b fs
  | .key fs =>
    match TypeCode.ofByte? b with
    | some (.basic k) => .ok ⟨s.done, .type (.entry k :: fs)⟩
    | some _ => .error .dictKeyMustBeBasicType
    | none => .error (if b = Ty.entryEnd then .dictEntryHasNoFields else strayByte b)
  | .entryEnd k t fs =>
    if b = Ty.entryEnd then .ok (complete s.done (.dictEntry k t) fs)
    else .error .dictEntryHasTooManyFields

/-- Read one byte of a signature of a single type. -/
def stepSingle (s : Scan) (b : UInt8) : Except SignatureFault Scan :=
  if s.done.isEmpty then s.step b else .error .multipleCompleteTypes

/-- The types of a signature read to its end. -/
def finish (s : Scan) : Except SignatureFault (List Ty) :=
  match s.expected with
  | .type [] => .ok s.done.reverse
  | .type (.array :: _) => .error .missingArrayElementType
  | .type (.struct _ :: _) => .error .structStartedButNotEnded
  | .type (.entry _ :: _) | .key _ | .entryEnd _ _ _ => .error .dictEntryStartedButNotEnded

end Scan

/-! ## Parsing -/

/-- A signature must not be too long. -/
def checkLength (s : Bytes) : Except SignatureFault Unit :=
  if s.length ≤ maxSignatureLength then .ok () else .error (.tooLong s.length)

/-- The complete types of a signature, in order. The empty signature has none. -/
def parseTypes (s : Bytes) : Except SignatureFault (List Ty) := do
  checkLength s
  (← s.foldlM Scan.step Scan.start).finish

/-- The type of a signature that holds exactly one. -/
def parseType (s : Bytes) : Except SignatureFault Ty := do
  checkLength s
  match ← (← s.foldlM Scan.stepSingle Scan.start).finish with
  | [t] => .ok t
  | [] => .error .empty
  | _ => .error .multipleCompleteTypes

end DBus
