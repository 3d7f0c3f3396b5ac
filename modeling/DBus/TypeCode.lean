/-!
# Type codes

A signature is written in single-character *type codes*. This file lists them, by what the
library does with a value of the type: an integer of some width and sign (`IntKind`), a scalar
of fixed width (`FixedCode`), a text (`TextCode`), either of the last two (`BasicCode`), or any
type at all (`TypeCode`).

A struct and a dict entry are named by their opening bracket. The closing brackets are
punctuation of the grammar and no codes.

`TypeCode.ofByte?_byte` and `TypeCode.byte_of_ofByte?` say that a code and its byte determine
each other.
-/

namespace DBus

-- `^` is the power of the standard library, whichever others are in scope.
attribute [local instance (1100)] instPowNat

/-- Raw bytes, of a message body or of a signature. -/
abbrev Bytes := List UInt8

/-! ## Integer kinds -/

/-- The seven integer types. -/
inductive IntKind
  | byte | int16 | uint16 | int32 | uint32 | int64 | uint64
  deriving DecidableEq, Repr

namespace IntKind

/-- Width in bytes. -/
def size : IntKind → Nat
  | byte => 1
  | int16 | uint16 => 2
  | int32 | uint32 => 4
  | int64 | uint64 => 8

/-- Width in bits. -/
def bits (k : IntKind) : Nat := 8 * k.size

/-- Whether numbers of the kind can be negative. -/
def signed : IntKind → Bool
  | int16 | int32 | int64 => true
  | byte | uint16 | uint32 | uint64 => false

/-- The least number of the kind. -/
def lo (k : IntKind) : Int := if k.signed then -(2 ^ (k.bits - 1) : Nat) else 0

/-- The first number above the kind. -/
def hi (k : IntKind) : Int := if k.signed then (2 ^ (k.bits - 1) : Nat) else (2 ^ k.bits : Nat)

/-- `n` is a number of kind `k`. -/
def Fits (k : IntKind) (n : Int) : Prop := k.lo ≤ n ∧ n < k.hi

instance (k : IntKind) (n : Int) : Decidable (k.Fits n) :=
  inferInstanceAs (Decidable (_ ∧ _))

end IntKind

/-! ## The codes -/

/-- Types of fixed width: a boolean, an integer or a double. -/
inductive FixedCode
  | boolean | int (kind : IntKind) | double
  deriving DecidableEq, Repr

/-- Types carried as text. -/
inductive TextCode
  | string | objectPath | signature
  deriving DecidableEq, Repr

/-- Types that are no containers; they alone may be dictionary keys. -/
inductive BasicCode
  | fixed (code : FixedCode) | text (code : TextCode)
  deriving DecidableEq, Repr

/-- All sixteen types. -/
inductive TypeCode
  | basic (code : BasicCode) | array | struct | dictEntry | variant
  deriving DecidableEq, Repr

namespace TypeCode

/-- The code of a fixed-width type. -/
abbrev fixed (c : FixedCode) : TypeCode := .basic (.fixed c)

/-- The code of an integer type. -/
abbrev int (k : IntKind) : TypeCode := .basic (.fixed (.int k))

/-- The code of a text type. -/
abbrev text (c : TextCode) : TypeCode := .basic (.text c)

/-- Every code once, in the order of the type table of the specification. -/
def all : List TypeCode :=
  [.int .byte, .fixed .boolean, .int .int16, .int .uint16, .int .int32, .int .uint32,
    .int .int64, .int .uint64, .fixed .double, .text .string, .text .objectPath,
    .text .signature, .array, .struct, .dictEntry, .variant]

/-- The character that stands for the type in a signature. -/
def symbol : TypeCode → Char
  | .basic (.fixed .boolean) => 'b'
  | .basic (.fixed (.int .byte)) => 'y'
  | .basic (.fixed (.int .int16)) => 'n'
  | .basic (.fixed (.int .uint16)) => 'q'
  | .basic (.fixed (.int .int32)) => 'i'
  | .basic (.fixed (.int .uint32)) => 'u'
  | .basic (.fixed (.int .int64)) => 'x'
  | .basic (.fixed (.int .uint64)) => 't'
  | .basic (.fixed .double) => 'd'
  | .basic (.text .string) => 's'
  | .basic (.text .objectPath) => 'o'
  | .basic (.text .signature) => 'g'
  | .array => 'a'
  | .struct => '('
  | .dictEntry => '\x7b'
  | .variant => 'v'

/-- The symbol as a byte. -/
def byte (c : TypeCode) : UInt8 := c.symbol.toUInt8

/-- The type that a byte stands for. -/
def ofByte? (b : UInt8) : Option TypeCode := all.find? fun c => c.byte = b

theorem mem_all (c : TypeCode) : c ∈ all := by
  rcases c with ((_ | k | _) | t) | _ | _ | _ | _
  case basic.fixed.int => cases k <;> decide
  case basic.text => cases t <;> decide
  all_goals decide

theorem ofByte?_byte (c : TypeCode) : ofByte? c.byte = some c := by
  rcases c with ((_ | k | _) | t) | _ | _ | _ | _
  case basic.fixed.int => cases k <;> decide
  case basic.text => cases t <;> decide
  all_goals decide

theorem byte_of_ofByte? {b : UInt8} {c : TypeCode} (h : ofByte? b = some c) : c.byte = b := by
  simpa using List.find?_some h

/-- The symbol as a text. -/
def display (c : TypeCode) : String := c.symbol.toString

/-- What a value of the type is called in a message. -/
def typeName : TypeCode → String
  | .basic (.fixed .boolean) => "boolean"
  | .basic (.fixed (.int .byte)) => "byte"
  | .basic (.fixed (.int .int16)) => "int16"
  | .basic (.fixed (.int .uint16)) => "uint16"
  | .basic (.fixed (.int .int32)) => "int32"
  | .basic (.fixed (.int .uint32)) => "uint32"
  | .basic (.fixed (.int .int64)) => "int64"
  | .basic (.fixed (.int .uint64)) => "uint64"
  | .basic (.fixed .double) => "double"
  | .basic (.text .string) => "string"
  | .basic (.text .objectPath) => "object path"
  | .basic (.text .signature) => "signature"
  | .array => "array"
  | .struct => "struct"
  | .dictEntry => "dict entry"
  | .variant => "variant"

/-- The name of the type as one capitalised word, which heads the written form of a value. -/
def title : TypeCode → String
  | .basic (.fixed .boolean) => "Boolean"
  | .basic (.fixed (.int .byte)) => "Byte"
  | .basic (.fixed (.int .int16)) => "Int16"
  | .basic (.fixed (.int .uint16)) => "UInt16"
  | .basic (.fixed (.int .int32)) => "Int32"
  | .basic (.fixed (.int .uint32)) => "UInt32"
  | .basic (.fixed (.int .int64)) => "Int64"
  | .basic (.fixed (.int .uint64)) => "UInt64"
  | .basic (.fixed .double) => "Double"
  | .basic (.text .string) => "String"
  | .basic (.text .objectPath) => "ObjectPath"
  | .basic (.text .signature) => "Signature"
  | .array => "Array"
  | .struct => "Struct"
  | .dictEntry => "DictEntry"
  | .variant => "Variant"

/-- Arrays, structs, dict entries and variants. -/
def isContainer : TypeCode → Bool
  | .basic _ => false
  | _ => true

/-- Every type but the containers. -/
def isBasic (c : TypeCode) : Bool := !c.isContainer

/-- Types whose values all have one width. -/
def isFixed : TypeCode → Bool
  | .basic (.fixed _) => true
  | _ => false

/-- Strings, object paths and signatures. -/
def isText : TypeCode → Bool
  | .basic (.text _) => true
  | _ => false

end TypeCode

/-! ## Layout on the wire -/

/-- Width on the wire in bytes. A boolean travels as four bytes. -/
def FixedCode.size : FixedCode → Nat
  | .boolean => 4
  | .int k => k.size
  | .double => 8

/-- A value starts at a multiple of the alignment of its type. -/
def TypeCode.alignment : TypeCode → Nat
  | .basic (.fixed c) => c.size
  | .basic (.text .signature) => 1
  | .basic (.text _) => 4
  | .array => 4
  | .struct | .dictEntry => 8
  | .variant => 1

/-- The bytes between `n` and the next multiple of `alignment`. -/
def padding (n alignment : Nat) : Nat := (alignment - n % alignment) % alignment

/-- The least multiple of `alignment` from `n` on. -/
def alignUp (n alignment : Nat) : Nat := n + padding n alignment

end DBus
