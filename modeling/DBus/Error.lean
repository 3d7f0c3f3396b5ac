import DBus.Decimal
import DBus.Native
import DBus.Signature

/-!
# Errors

Everything that can go wrong, by cause. `Error.message` is the text of each. The causes that
are many of a kind have types of their own: a value that is not what its place asks for
(`Mismatch`), a native signature that does not suit a method (`Incompatibility`), data that has
no place in a value (`EncodingFault`) and a value that is not of the expected shape
(`DecodingFault`).
-/

namespace DBus

/-! ## Mismatches -/

/-- A value, type or text that is not what its place asks for. -/
inductive Mismatch
  /-- The value under a cursor has another type than the argument. -/
  | wireType (expected found : TypeCode)
  /-- The value under a cursor is not of fixed width. -/
  | fixedValue (found : TypeCode)
  /-- The value under a cursor is no text. -/
  | textValue (found : TypeCode)
  /-- The value under a cursor is no container. -/
  | containerValue (found : TypeCode)
  /-- A word is to be written as a type that is not of fixed width. -/
  | fixedType (found : TypeCode)
  /-- A text is to be written as a type that is no text. -/
  | textType (found : TypeCode)
  | nulInText (text : String)
  | objectPath (text : String)
  /-- A basic type does not take a value of this kind. -/
  | basicValue (expected found : TypeCode)
  /-- A container type does not take a value of this kind. -/
  | containerType (expected : Ty) (found : TypeCode)
  | fieldCount (expected found : Nat)
  /-- A container is to be unboxed. -/
  | notBasic (found : Ty)
  /-- A word is to be boxed as a type that has none. -/
  | wordFor (expected : TypeCode)
  /-- A text is to be boxed as a type that has none. -/
  | textFor (expected : TypeCode)
  /-- A native scalar does not take this number, or no value of this kind. -/
  | nativeScalar (expected : NativeType) (found : TypeCode)
  /-- A word is held as a native type that is no scalar. -/
  | nativeWord (found : NativeType)
  /-- The registered native type does not suit the wire type. -/
  | unboxedForm (code : TypeCode) (found : NativeType)
  | nativeWithoutWireType (found : NativeType)
  | scalarSlot (expected : Ty)
  | emptySlot (expected : TypeCode)
  | emptyArray
  /-- Two elements of an array have the given signatures. -/
  | mixedArray (first other : Bytes)
  | emptyStruct
  | direction (text : String)
  | access (text : String)
  | readOnly (property : String)
  | writeOnly (property : String)
  | argumentCount (signal : String) (expected found : Nat)
  /-- The return slot does not hold a struct of as many values as there are outputs. -/
  | returnValues (expected : Nat) (slot : String)
  | character (found : Int)
  | byte (found : TypeCode)
  | byteArray (found : TypeCode)
  | enumPair (name : String)
  | enumValue (name : String) (found : TypeCode)
  | variantContents (variant : String)
  | unitVariant (variant : String) (found : TypeCode)
  /-- The type of the given signature has no child at this position. -/
  | missingChild (position : Nat) (signature : Bytes)
  deriving DecidableEq, Repr

namespace Mismatch

/-- What the place asks for. -/
def expected : Mismatch → String
  | wireType c _ | basicValue c _ | wordFor c | textFor c | emptySlot c => c.display
  | fixedValue _ => "fixed-width value"
  | textValue _ => "string-like value"
  | containerValue _ => "container"
  | fixedType _ => "fixed-width type"
  | textType _ => "string-like type"
  | nulInText _ => "string without nul bytes"
  | objectPath _ => "object path"
  | containerType t _ | scalarSlot t => t.signature
  | fieldCount n _ => s!"{n} struct fields"
  | notBasic _ => "basic type"
  | nativeScalar n _ => n.display
  | nativeWord _ => "scalar native type"
  | unboxedForm c _ => "unboxed form of '" ++ c.display ++ "'"
  | nativeWithoutWireType _ => "native type with a wire type"
  | emptyArray => "array with an element type"
  | mixedArray e _ => "array element " ++ asciiText e
  | emptyStruct => "struct with fields"
  | direction _ => "direction \"in\" or \"out\""
  | access _ => "access \"read\", \"write\" or \"readwrite\""
  | readOnly _ => "writable property"
  | writeOnly _ => "readable property"
  | argumentCount signal n _ => s!"{n} arguments to " ++ signal
  | returnValues n _ => s!"struct of {n} return values"
  | character _ => "unicode scalar value"
  | byte _ => "byte"
  | byteArray _ => "byte array"
  | enumPair name => "(sv) for enum " ++ name
  | enumValue name _ => "enum " ++ name
  | variantContents variant => "contents of " ++ variant
  | unitVariant variant _ => "unit variant " ++ variant
  | missingChild k signature => s!"child {k} of '" ++ asciiText signature ++ "'"

/-- What was there instead. -/
def found : Mismatch → String
  | wireType _ c | fixedValue c | textValue c | containerValue c | fixedType c | textType c =>
    c.display
  | nulInText s | objectPath s | direction s | access s => quote s
  | basicValue _ c | containerType _ c | nativeScalar _ c | byte c | byteArray c
  | enumValue _ c | unitVariant _ c => c.typeName
  | fieldCount _ n => s!"{n} struct fields"
  | notBasic t => t.signature
  | wordFor _ => "scalar"
  | textFor _ => "string"
  | nativeWord n | unboxedForm _ n | nativeWithoutWireType n => n.display
  | scalarSlot _ => "scalar slot"
  | emptySlot _ => "empty slot"
  | emptyArray => "empty array"
  | mixedArray _ e => "array element " ++ asciiText e
  | emptyStruct => "empty struct"
  | readOnly property => "read-only " ++ property
  | writeOnly property => "write-only " ++ property
  | argumentCount _ _ n => toString n
  | returnValues _ slot => slot
  | character n => toString n
  | enumPair _ => "struct"
  | variantContents _ => "unit variant"
  | missingChild _ _ => "none"

end Mismatch

/-! ## Native signatures that do not suit a method -/

/-- Where a native signature does not suit a method. -/
inductive Incompatibility
  | argumentCount (method : String) (inputs : Nat) (signature : NativeSignature)
  | argument (index : Nat) (method : String) (expected : Ty) (found : NativeType)
  | result (method : String) (found : NativeType)
  /-- The slot that is to hold an argument has this native type. -/
  | slot (expected : Ty) (method : String) (found : NativeType)
  deriving DecidableEq, Repr

/-- The place and the types as told in a message. -/
def Incompatibility.message : Incompatibility → String
  | argumentCount method inputs signature =>
    method ++ s!" takes {inputs} arguments, " ++ signature.display ++
      s!" has {signature.args.length}"
  | argument index method expected found =>
    s!"argument {index} of " ++ method ++ " is '" ++ expected.signature ++ "', not " ++
      found.display
  | result method found => method ++ " cannot return " ++ found.display
  | slot expected method found =>
    "'" ++ expected.signature ++ "' of " ++ method ++ " cannot be held as " ++ found.display

/-! ## Data without a value -/

/-- Why data cannot be made a value. -/
inductive EncodingFault
  | unsupported (type : String)
  | containerKey (found : TypeCode)
  | valueWithoutKey
  /-- The data itself reports a failure. -/
  | reported (text : String)
  deriving DecidableEq, Repr

/-- The fault as told in a message. -/
def EncodingFault.message : EncodingFault → String
  | unsupported type => type ++ " is not supported"
  | containerKey found => "map keys must be basic types, found " ++ found.typeName
  | valueWithoutKey => "map value without a key"
  | reported text => text

/-! ## Values of an unexpected shape -/

/-- What a value turned out to be. -/
inductive Unexpected
  | boolean (b : Bool) | integer (n : Int) | double (d : Double) | character (c : Char)
  | text (s : String) | bytes | unit | option | newtype | sequence | map | enum
  deriving DecidableEq, Repr

/-- The value as told in a message. -/
def Unexpected.message : Unexpected → String
  | boolean b => "boolean `" ++ toString b ++ "`"
  | integer n => "integer `" ++ toString n ++ "`"
  | double d => "floating point `" ++ Decimal.plain d ++ "`"
  | character c => "character `" ++ c.toString ++ "`"
  | text s => "string " ++ quote s
  | bytes => "byte array"
  | unit => "unit value"
  | option => "Option value"
  | newtype => "newtype struct"
  | sequence => "sequence"
  | map => "map"
  | enum => "enum"

/-- Why a value is not of the expected shape. -/
inductive DecodingFault
  | unsupported (type : String)
  | invalidType (found : Unexpected) (expected : String)
  | invalidValue (found : Unexpected) (expected : String)
  | invalidLength (length : Nat) (expected : String)
  | missingField (name : String)
  | duplicateField (name : String)
  | unknownVariant (name : String) (known : List String)
  | valueBeforeKey
  deriving DecidableEq, Repr

/-- A choice of names as told in a message. -/
def oneOf : List String → String
  | [] => "there are no variants"
  | [a] => "expected `" ++ a ++ "`"
  | [a, b] => "expected `" ++ a ++ "` or `" ++ b ++ "`"
  | names => "expected one of " ++ ", ".intercalate (names.map fun n => "`" ++ n ++ "`")

/-- The fault as told in a message. -/
def DecodingFault.message : DecodingFault → String
  | unsupported type => type ++ " is not supported"
  | invalidType found expected => "invalid type: " ++ found.message ++ ", expected " ++ expected
  | invalidValue found expected => "invalid value: " ++ found.message ++ ", expected " ++ expected
  | invalidLength length expected => s!"invalid length {length}, expected " ++ expected
  | missingField name => "missing field `" ++ name ++ "`"
  | duplicateField name => "duplicate field `" ++ name ++ "`"
  | unknownVariant name known => "unknown variant `" ++ name ++ "`, " ++ oneOf known
  | valueBeforeKey => "map value requested before its key"

/-! ## All errors -/

/-- Why an operation failed. -/
inductive Error
  | encoding (fault : EncodingFault)
  | decoding (fault : DecodingFault)
  | malformedSignature (signature : String) (fault : SignatureFault)
  | malformedVariant (signature : String) (fault : SignatureFault)
  /-- The boxing policy has no entry for the type. -/
  | unregisteredType (code : TypeCode)
  | noBoxedRepresentation (code : TypeCode)
  | typeMismatch (mismatch : Mismatch)
  | indexOutOfRange (index : Int) (inputs outputs : Nat)
  | incompatibleSignature (why : Incompatibility)
  | unrepresentableReturn (outputs : Nat)
  | depthExceeded (limit : Nat)
  | indexOutOfBounds (index : Nat)
  | invalidBoolean (n : Nat)
  /-- There is no value under the cursor. -/
  | cursorExhausted
  | missingNul (index : Nat)
  | arrayTooLong (length : Nat)
  | leftoverData (length : Nat)
  | utf8 (fault : Utf8Fault)
  deriving DecidableEq, Repr

namespace Error

/-- The error as told to a user. -/
def message : Error → String
  | encoding fault => "Error serializing: " ++ fault.message
  | decoding fault => "Error deserializing: " ++ fault.message
  | malformedSignature signature fault =>
    "malformed signature " ++ quote signature ++ ": " ++ fault.message
  | malformedVariant signature fault =>
    "malformed variant signature " ++ quote signature ++ ": " ++ fault.message
  | unregisteredType code => "no boxing policy entry for type '" ++ code.display ++ "'"
  | noBoxedRepresentation code => "type '" ++ code.display ++ "' has no boxed representation"
  | typeMismatch m => "type mismatch: expected " ++ m.expected ++ ", found " ++ m.found
  | indexOutOfRange index inputs outputs =>
    s!"argument index {index} out of range ({inputs} in, {outputs} out)"
  | incompatibleSignature why => "incompatible native signature: " ++ why.message
  | unrepresentableReturn outputs =>
    s!"{outputs} output arguments cannot be returned without boxing"
  | depthExceeded limit => s!"container nesting exceeds maximum depth of {limit}"
  | indexOutOfBounds index => s!"index {index} is out of bounds"
  | invalidBoolean n => s!"invalid boolean value {n}"
  | cursorExhausted => "cursor has no more values"
  | missingNul index => s!"string at {index} is not nul terminated"
  | arrayTooLong length => s!"array of {length} bytes exceeds the maximum array length"
  | leftoverData length => s!"{length} bytes of leftover data"
  | utf8 fault => "invalid utf-8: " ++ fault.message

end Error

/-- A text as bytes decode to it, or the place where they are no UTF-8. -/
def readText (bs : Bytes) : Except Error String :=
  (decodeUtf8 bs).mapError .utf8

end DBus
