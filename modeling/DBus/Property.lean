import DBus.Marshal
import DBus.Member
import DBus.Unmarshal

/-!
# Properties

A `Property` describes a property by its one type and by what may be done with it. Its value is
written only if it is writable and read only if it is readable.
-/

namespace DBus

/-- The description of a property. -/
structure Property where
  name : String
  interface : Option String := none
  argument : Argument
  access : Access
  annotations : Annotations := {}

namespace Property

/-- A property from the signature of its type. -/
def ofSignature (name : String) (signature : Bytes) (access : Access) : Except Error Property := do
  return { name, access, argument := ← Argument.ofSignature signature }

/-- A property from a native type. -/
def ofNative (name : String) (n : NativeType) (access : Access) : Except Error Property := do
  return { name, access, argument := ← Argument.ofNative n }

/-- The property with an annotation. -/
def annotate (p : Property) (name value : String) : Property :=
  { p with annotations := p.annotations.insert name value }

/-- The property should not be used any more. -/
def isDeprecated (p : Property) : Bool := Annotations.isTrue p.annotations deprecatedAnnotation

/-- The native type of the value, boxed or not. -/
def nativeType (p : Property) (policy : BoxingPolicy) (boxed : Bool) : Except Error NativeType :=
  policy.nativeType p.argument.ty boxed

/-- Write a new value. -/
def marshal (p : Property) (x : Marshaller) (v : Value) (w : Writer) : Write Unit := do
  if !p.access.isWritable then throw (.typeMismatch (.readOnly p.name))
  x.writeValue p.argument.ty v w

/-- Read the value at a cursor. -/
def unmarshal (p : Property) (x : Marshaller) (r : Reader) : Except Error Value := do
  if !p.access.isReadable then throw (.typeMismatch (.writeOnly p.name))
  x.readValue p.argument.ty r

end Property

end DBus
