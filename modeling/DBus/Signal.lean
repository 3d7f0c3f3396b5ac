import DBus.Marshal
import DBus.Member
import DBus.Receive

/-!
# Signals

A `Signal` describes a signal by its arguments, which have no direction. Its body is written
from values and read as values, all of them boxed.
-/

namespace DBus

/-- The description of a signal. -/
structure Signal where
  name : String
  interface : Option String := none
  /-- The object that emits the signal. -/
  path : Option String := none
  args : List Argument := []
  annotations : Annotations := {}

namespace Signal

/-- A signal from the signature of its arguments. -/
def ofSignature (name : String) (signature : Bytes) : Except Error Signal := do
  return { name, args := ← Argument.listOfSignature signature }

/-- The signal with one more argument. -/
def addArgument (s : Signal) (a : Argument) : Signal := { s with args := s.args ++ [a] }

/-- The signal with an annotation. -/
def annotate (s : Signal) (name value : String) : Signal :=
  { s with annotations := s.annotations.insert name value }

/-- The signal should not be used any more. -/
def isDeprecated (s : Signal) : Bool := Annotations.isTrue s.annotations deprecatedAnnotation

/-- An argument by its number. No argument has a negative one. -/
def argument (s : Signal) (index : Int) : Except Error Argument :=
  let found :=
    match index with
    | .ofNat n => s.args[n]?
    | .negSucc _ => none
  match found with
  | some a => .ok a
  | none => .error (.indexOutOfRange index s.args.length 0)

/-- The signature of the message body. -/
def messageSignature (s : Signal) : Bytes := Ty.renderAll (s.args.map Argument.ty)

/-- Write one value for each argument. -/
def marshal (s : Signal) (x : Marshaller) (values : List Value) (w : Writer) : Write Unit := do
  if values.length ≠ s.args.length then
    throw (.typeMismatch (.argumentCount s.name s.args.length values.length))
  Marshaller.writeFields (fun t v => x.writeValue t v w) (s.args.map Argument.ty) values

/-- Read one value for each argument. -/
def unmarshal (s : Signal) (x : Marshaller) : Receive (List Value) := x.receiveAll s.args

end Signal

end DBus
