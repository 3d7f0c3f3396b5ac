import DBus.CallRecord

/-!
# Marshallers

A `Marshaller` moves values between message bodies and native calls, as a boxing policy has it
and no deeper than a limit on nested containers. This file holds what reading and writing have
in common: the limit, and the way between the boxed and the unboxed form of a basic value.
-/

namespace DBus

/-- A boxing policy and the deepest nesting of containers in a value. -/
structure Marshaller where
  policy : BoxingPolicy := .standard
  maxDepth : Nat := 64

namespace Marshaller

/-- Go into a container where `room` more levels are allowed. What is left is for its
contents. -/
def deeper (m : Marshaller) : (room : Nat) → Except Error Nat
  | 0 => .error (.depthExceeded m.maxDepth)
  | room + 1 => .ok room

/-- The unboxed form of a value of a basic type. -/
def unbox (m : Marshaller) (t : Ty) (v : Value) : Except Error Unboxed := do
  if t.isContainer then throw (.typeMismatch (.notBasic t))
  match (← m.policy.unboxer t.code) v with
  | some u => return u
  | none => throw (.typeMismatch (.basicValue t.code v.code))

/-- The boxed form of an unboxed value of a basic type. -/
def box (m : Marshaller) (t : Ty) (u : Unboxed) : Except Error Value := do
  discard (m.policy.boxedType t)
  match u, t with
  | .word w, .basic (.fixed c) => return .scalar (.ofWord c w)
  | .word _, t => throw (.typeMismatch (.wordFor t.code))
  | .str s, .basic (.text c) => return .text c s
  | .str _, t => throw (.typeMismatch (.textFor t.code))

end Marshaller

end DBus
