import DBus.Boxing

/-!
# Call records

A `CallRecord` holds the arguments and the result of a native call, each in a slot of its own.
Slots have a signed index: the arguments count from zero, and the result is at -1.
-/

namespace DBus

/-! ## Slots -/

/-- What stands in one place of a call. -/
inductive Slot
  | empty
  | word (w : Word)
  | str (s : String)
  | value (v : Value)
  deriving Repr

/-- A slot that holds an unboxed value. -/
def Slot.ofUnboxed : Unboxed → Slot
  | .word w => word w
  | .str s => str s

/-- A slot as messages write it. -/
def Slot.describe : Slot → String
  | empty => "Empty"
  | word w => "Word(" ++ w.describe ++ ")"
  | str s => "Str(" ++ quote s ++ ")"
  | value v => "Value(" ++ v.describe ++ ")"

/-! ## Records -/

/-- The slots of a call, one for each parameter of its native signature and one for the
result. -/
structure CallRecord where
  signature : NativeSignature
  args : List Slot
  ret : Slot
  length_args : args.length = signature.args.length

namespace CallRecord

/-- The index of the result. -/
def returnIndex : Int := -1

/-- A record with nothing in it. -/
def new (s : NativeSignature) : CallRecord :=
  ⟨s, s.args.map fun _ => .empty, .empty, by simp⟩

/-- There is no slot at the index. -/
def outOfRange (r : CallRecord) (index : Int) : Error :=
  .indexOutOfRange index r.args.length (if r.signature.ret = .void then 0 else 1)

/-- The entry of a list at a slot index that is no result's. -/
def at? {α : Type} (xs : List α) : Int → Option α
  | .ofNat n => xs[n]?
  | .negSucc _ => none

/-- The native type that the signature gives a slot. -/
def nativeType (r : CallRecord) (index : Int) : Except Error NativeType :=
  if index = returnIndex then .ok r.signature.ret
  else match at? r.signature.args index with
    | some n => .ok n
    | none => .error (r.outOfRange index)

/-- What a slot holds. -/
def slot (r : CallRecord) (index : Int) : Except Error Slot :=
  if index = returnIndex then .ok r.ret
  else match at? r.args index with
    | some s => .ok s
    | none => .error (r.outOfRange index)

/-- The record with another content of a slot. -/
def set (r : CallRecord) (index : Int) (s : Slot) : Except Error CallRecord := do
  discard (r.slot index)
  if index = returnIndex then return { r with ret := s }
  else
    return { r with
      args := r.args.set index.toNat s
      length_args := by rw [List.length_set, r.length_args] }

end CallRecord

end DBus
