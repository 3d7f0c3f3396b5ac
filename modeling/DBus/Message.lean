import DBus.TypeCode

/-!
# Message bodies

A message body is raw bytes with the signature of the values in them.
-/

namespace DBus

-- `^` is the power of the standard library, whichever others are in scope.
attribute [local instance (1100)] instPowNat

/-- A message body and its signature. -/
structure Message where
  data : Bytes := []
  signature : Bytes := []
  deriving DecidableEq, Repr

/-- The deepest nesting of containers in a body. -/
def maxNesting : Nat := 64

/-- The longest contents of an array in bytes. -/
def maxArrayLength : Nat := 2 ^ (26 : Nat)

end DBus
