import DBus.Marshaller
import DBus.Writer

/-!
# Writing values

`Marshaller.writeValue` appends a value to a body as a value of a type. A basic value is taken in
its unboxed form, so that it may be of another kind that converts to the type; a variant also
takes a plain value, of which the type is inferred. Containers have to be of the kind of the
type.

`Marshaller.writeFrom` appends what a slot of a call record holds.
-/

namespace DBus

/-- A result without effect on the message. -/
instance : MonadLift (Except Error) Write where
  monadLift
    | .ok a => pure a
    | .error e => throw e

/-- A value with its type as a variant carries them. A value that is no variant is the contents
of one. -/
def Value.asVariant : Value → Except Error (Argument × Value)
  | .variant t v => .ok (t, v)
  | v => do return (← v.inferArgument, v)

namespace Marshaller

/-- Write values one by one as values of the types, or of what stands for them. -/
def writeFields {α : Type} (write : α → Value → Write Unit) : List α → List Value → Write Unit
  | t :: ts, v :: vs => do
    write t v
    writeFields write ts vs
  | _, _ => pure ()

/-- Append an unboxed value as a value of a type. -/
def writeUnboxed (c : TypeCode) (w : Writer) : Unboxed → Write Unit
  | .word word => w.appendWord c word
  | .str s => w.appendText c s

/-- Append a value, given how values one level deeper are appended. -/
def writeBy (m : Marshaller) (inner : (room : Nat) → Ty → Value → Writer → Write Unit)
    (room : Nat) (t : Ty) (v : Value) (w : Writer) : Write Unit := do
  discard (m.policy.entry t.code)
  match t, v with
  | .basic b, v => writeUnboxed (.basic b) w (← m.unbox (.basic b) v)
  | .array e, .array vs =>
    let room ← m.deeper room
    let items ← w.openArray e.render
    vs.forM fun v => inner room e v items
    items.close
  | .struct ts, .struct vs =>
    if ts.length ≠ vs.length then throw (.typeMismatch (.fieldCount ts.length vs.length))
    let room ← m.deeper room
    let fields ← w.openStruct (Ty.struct ts).render
    writeFields (fun t v => inner room t v fields) ts vs
    fields.close
  | .dictEntry k u, .dictEntry key value =>
    let room ← m.deeper room
    let entry ← w.openDictEntry
    inner room (.basic k) key entry
    inner room u value entry
    entry.close
  | .variant, v =>
    let (u, contents) ← v.asVariant
    let room ← m.deeper room
    let inside ← w.openVariant u.ty.render
    inner room u.ty contents inside
    inside.close
  | t, v => throw (.typeMismatch (.containerType t v.code))

/-- Append a value, going at most `levels` levels deep. -/
def writeWithin (m : Marshaller) :
    (levels : Nat) → (room : Nat) → Ty → Value → Writer → Write Unit
  | 0 => m.writeBy fun _ _ _ _ => throw (.depthExceeded maxNesting)
  | levels + 1 => m.writeBy (m.writeWithin levels)

/-- Append a value as a value of a type. -/
def writeValue (m : Marshaller) (t : Ty) (v : Value) (w : Writer) : Write Unit :=
  m.writeWithin w.levels m.maxDepth t v w

/-- A text has to be well formed where the type asks for it. -/
def checkText : TypeCode → String → Except Error Unit
  | .basic (.text c), s => c.check s
  | _, _ => .ok ()

/-- Append the content of a slot as a value of a type. An unboxed scalar is of the native type
that the policy has for the type. -/
def writeSlot (m : Marshaller) (t : Ty) (w : Writer) : Slot → Write Unit
  | .value v => m.writeValue t v w
  | .word word => do
    if t.isContainer then throw (.typeMismatch (.scalarSlot t))
    match (← m.policy.entry t.code).unboxed with
    | .scalar c => m.writeValue t (.scalar (.ofWord c word)) w
    | n => throw (.typeMismatch (.nativeWord n))
  | .str s => do
    discard (m.policy.entry t.code)
    checkText t.code s
    w.appendText t.code s
  | .empty => throw (.typeMismatch (.emptySlot t.code))

/-- Append the content of a slot of a record as a value of a type. -/
def writeFrom (m : Marshaller) (t : Ty) (record : CallRecord) (index : Int) (w : Writer) :
    Write Unit := do
  m.writeSlot t w (← record.slot index)

end Marshaller

end DBus
