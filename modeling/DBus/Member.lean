import DBus.Argument
import DBus.LetterCase
import Std.Data.TreeMap

/-!
# Members of an interface

What the descriptions of methods, signals and properties have in common: the annotations of a
member, the words by which introspection data names a direction or an access, and the name under
which native code knows a member.
-/

namespace DBus

/-! ## Annotations -/

/-- Annotations by name, in the order of their names. -/
abbrev Annotations := Std.TreeMap String String

/-- The annotation of methods of which the caller expects no reply. -/
def noReplyAnnotation : String := "org.freedesktop.DBus.Method.NoReply"

/-- The annotation of members that should not be used any more. -/
def deprecatedAnnotation : String := "org.freedesktop.DBus.Deprecated"

/-- Whether an annotation is set. -/
def Annotations.isTrue (a : Annotations) (name : String) : Bool := a.get? name = some "true"

/-! ## Words of introspection data -/

/-- Whether an argument goes into a method or comes out of it. -/
inductive Direction
  | input | output
  deriving DecidableEq, Repr

/-- The direction that a word names. -/
def Direction.ofWord : String → Except Error Direction
  | "in" => .ok .input
  | "out" => .ok .output
  | s => .error (.typeMismatch (.direction s))

/-- What may be done with a property. -/
inductive Access
  | read | write | readWrite
  deriving DecidableEq, Repr

namespace Access

/-- The access that a word names. -/
def ofWord : String → Except Error Access
  | "read" => .ok .read
  | "write" => .ok .write
  | "readwrite" => .ok .readWrite
  | s => .error (.typeMismatch (.access s))

/-- The property may be read. -/
def isReadable (a : Access) : Bool := a ≠ .write

/-- The property may be written. -/
def isWritable (a : Access) : Bool := a ≠ .read

end Access

/-! ## Native names -/

/-- Whether a word starts at the character `c` between `prev` and `next`: at a capital after a
small letter or a digit, and at the last of several capitals if a small letter follows. -/
def startsWord (prev : Option Char) (c : Char) (next : Option Char) : Bool :=
  match prev with
  | none => false
  | some p =>
    Charset.isUpper c &&
      (Charset.isLower p || p.isDigit || (Charset.isUpper p && next.any Charset.isLower))

/-- Characters that follow `prev`, in small letters and with an underscore before each word. -/
def snakeCase (prev : Option Char) : List Char → List Char
  | [] => []
  | c :: cs =>
    let word := Charset.lower c ++ snakeCase (some c) cs
    if startsWord prev c cs.head? then '_' :: word else word

/-- The name of a member in native code: `GetNameOwner` becomes `get_name_owner`. -/
def nativeName (name : String) : String := String.ofList (snakeCase none name.toList)

end DBus
