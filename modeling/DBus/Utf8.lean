import DBus.TypeCode

/-!
# Text as bytes

`utf8` encodes a text and `decodeUtf8` reads one back, refusing bytes that are no UTF-8 with
the place and the extent of the first fault. `decodeUtf8_utf8` and `utf8_of_decodeUtf8` say
that the two are inverse.

A signature is ASCII, so its text is also had byte by byte (`asciiText`).
-/

namespace DBus

/-- The UTF-8 encoding of a text. -/
def utf8 (s : String) : Bytes := s.toByteArray.data.toList

/-- The text whose characters are the given bytes. -/
def asciiText (bs : Bytes) : String := String.ofList (bs.map fun b => Char.ofNat b.toNat)

/-! ## Faults -/

/-- Why bytes are no UTF-8. -/
inductive Utf8Fault
  /-- `length` bytes from `index` on begin no character. -/
  | invalid (length index : Nat)
  /-- The bytes end inside the character that starts at `index`. -/
  | incomplete (index : Nat)
  deriving DecidableEq, Repr

namespace Utf8Fault

/-- The fault as told in a message. -/
def message : Utf8Fault → String
  | invalid length index => s!"invalid utf-8 sequence of {length} bytes from index {index}"
  | incomplete index => s!"incomplete utf-8 byte sequence from index {index}"

/-- A byte that goes on with a character begun before. -/
def isContinuation (b : UInt8) : Bool := 0x80 ≤ b && b < 0xC0

/-- Length in bytes of the character that starts with `b`, and the bounds of its second byte.
The bounds keep out overlong forms, surrogates and code points above U+10FFFF. -/
def start? (b : UInt8) : Option (Nat × UInt8 × UInt8) :=
  if b < 0x80 then some (1, 0, 0)
  else if 0xC2 ≤ b && b < 0xE0 then some (2, 0x80, 0xBF)
  else if b = 0xE0 then some (3, 0xA0, 0xBF)
  else if b = 0xED then some (3, 0x80, 0x9F)
  else if 0xE1 ≤ b && b < 0xF0 then some (3, 0x80, 0xBF)
  else if b = 0xF0 then some (4, 0x90, 0xBF)
  else if 0xF1 ≤ b && b < 0xF4 then some (4, 0x80, 0xBF)
  else if b = 0xF4 then some (4, 0x80, 0x8F)
  else none

/-- The fault inside a character that starts at `index` with `taken` bytes read and `left` bytes
to come, if it has one. -/
def within (index taken : Nat) : (left : Nat) → Bytes → Option Utf8Fault
  | 0, _ => none
  | _ + 1, [] => some (incomplete index)
  | left + 1, b :: bs =>
    if isContinuation b then within index (taken + 1) left bs else some (invalid taken index)

/-- The first fault of bytes that start at `index`, where the first `skip` bytes belong to a
character already checked. Bytes without a fault are taken to end too early. -/
def first (index : Nat) : (skip : Nat) → Bytes → Utf8Fault
  | _, [] => incomplete index
  | skip + 1, _ :: bs => first (index + 1) skip bs
  | 0, b :: bs =>
    match start? b with
    | none => invalid 1 index
    | some (1, _, _) => first (index + 1) 0 bs
    | some (length, low, high) =>
      match bs with
      | [] => incomplete index
      | second :: rest =>
        if second < low || high < second then invalid 1 index
        else (within index 2 (length - 2) rest).getD (first (index + 1) (length - 1) bs)

end Utf8Fault

/-- The text that the bytes encode. -/
def decodeUtf8 (bs : Bytes) : Except Utf8Fault String :=
  match String.fromUTF8? ⟨bs.toArray⟩ with
  | some s => .ok s
  | none => .error (Utf8Fault.first 0 0 bs)

/-- Bytes shown as a text: what they decode to, or else one character for each byte. -/
def shownText (bs : Bytes) : String :=
  match decodeUtf8 bs with
  | .ok s => s
  | .error _ => asciiText bs

/-! ## Encoding and decoding are inverse -/

theorem decodeUtf8_utf8 (s : String) : decodeUtf8 (utf8 s) = .ok s := by
  have h : (⟨(utf8 s).toArray⟩ : ByteArray) = s.toByteArray := by simp [utf8]
  simp [decodeUtf8, h, String.fromUTF8?, s.isValidUTF8, String.fromUTF8]

theorem utf8_of_decodeUtf8 {bs : Bytes} {s : String} (h : decodeUtf8 bs = .ok s) :
    utf8 s = bs := by
  unfold decodeUtf8 String.fromUTF8? at h
  split at h
  · next t ht =>
    split at ht
    · simp only [Except.ok.injEq, Option.some.injEq] at h ht
      subst h; subst ht
      simp [utf8, String.fromUTF8]
    · simp at ht
  · simp at h

end DBus
