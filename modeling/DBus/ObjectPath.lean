/-!
# Object paths

An object path is `/` alone, or one or more elements each behind a `/`. An element is a
non-empty run of ASCII letters, digits and underscores.
-/

namespace DBus.ObjectPath

/-- The characters of an element. -/
def isElementChar (c : Char) : Bool := c.isAlphanum || c = '_'

/-- Whether `cs` goes on with elements after a slash, or after a character of an element if
`begun` says so, and ends inside an element. -/
def isTail (begun : Bool) : List Char → Bool
  | [] => begun
  | '/' :: cs => begun && isTail false cs
  | c :: cs => isElementChar c && isTail true cs

/-- Whether a text is an object path. -/
def isValid (s : String) : Bool :=
  match s.toList with
  | ['/'] => true
  | '/' :: cs => isTail false cs
  | _ => false

end DBus.ObjectPath
