import DBus.Marshaller
import DBus.Reader

/-!
# Reading values

`Marshaller.readValue` reads the value at a cursor as a value of a type. The cursor has to stand
at a value of the same outermost type; the contents of containers are compared as they are read.
Reading does not move the cursor.

`Marshaller.readInto` puts what it reads into a slot of a call record, boxed or not.
-/

namespace DBus

namespace Marshaller

/-- The cursor has to stand at a value of the type. -/
def expectCode (c : TypeCode) (r : Reader) : Except Error Unit := do
  let found ← r.require
  if found = c then return () else throw (.typeMismatch (.wireType c found))

/-- The values of a cursor up to its end, at most `n` of them. -/
def readItems (read : Reader → Except Error Value) :
    (n : Nat) → Reader → Except Error (List Value)
  | 0, _ => .ok []
  | n + 1, r =>
    match r.current with
    | none => .ok []
    | some _ => do
      let v ← read r
      let vs ← readItems read n (← r.advance)
      return v :: vs

/-- One value of each of the types, or of what stands for them. -/
def readFields {α : Type} (read : α → Reader → Except Error Value) :
    List α → Reader → Except Error (List Value)
  | [], _ => .ok []
  | t :: ts, r => do
    let v ← read t r
    let vs ← readFields read ts (← r.advance)
    return v :: vs

/-- The value at a cursor, given how the values one level deeper are read. An array has no more
elements than bytes. -/
def readBy (m : Marshaller) (inner : (room : Nat) → Ty → Reader → Except Error Value)
    (room : Nat) (t : Ty) (r : Reader) : Except Error Value := do
  discard (m.policy.entry t.code)
  expectCode t.code r
  match t with
  | .basic (.fixed c) => return .scalar (.ofWord c (← r.word))
  | .basic (.text c) =>
    let s ← r.text
    c.check s
    return .text c s
  | .array e =>
    let room ← m.deeper room
    let items ← r.enter
    return .array (← readItems (inner room e) (items.stop - items.pos) items)
  | .struct ts =>
    let room ← m.deeper room
    return .struct (← readFields (inner room) ts (← r.enter))
  | .dictEntry k u =>
    let room ← m.deeper room
    let entry ← r.enter
    let key ← inner room (.basic k) entry
    return .dictEntry key (← inner room u (← entry.advance))
  | .variant =>
    let room ← m.deeper room
    let contents ← r.enter
    let u ← variantType contents.signature
    return .variant ⟨u, none⟩ (← inner room u contents)

/-- The value at a cursor, looking at most `levels` levels deep. -/
def readWithin (m : Marshaller) :
    (levels : Nat) → (room : Nat) → Ty → Reader → Except Error Value
  | 0 => m.readBy fun _ _ _ => .error (.depthExceeded maxNesting)
  | levels + 1 => m.readBy (m.readWithin levels)

/-- The value at a cursor as a value of a type. -/
def readValue (m : Marshaller) (t : Ty) (r : Reader) : Except Error Value :=
  m.readWithin r.levels m.maxDepth t r

/-- The basic value at a cursor in the unboxed form that the policy has for its type. -/
def readUnboxed (m : Marshaller) (b : BasicCode) (r : Reader) : Except Error Unboxed := do
  let entry ← m.policy.entry (.basic b)
  expectCode (.basic b) r
  match b, entry.unboxed with
  | .text c, .str =>
    let s ← r.text
    c.check s
    return .str s
  | .fixed c, .scalar d =>
    let s := Scalar.ofWord c (← r.word)
    match s.convert? d with
    | some u => return .word u.toWord
    | none => throw (.typeMismatch (.nativeScalar (.scalar d) (.fixed s.code)))
  | _, n => throw (.typeMismatch (.unboxedForm (.basic b) n))

/-- The value at a cursor as a slot holds it. Containers are always boxed. -/
def readSlot (m : Marshaller) (t : Ty) (r : Reader) (boxed : Bool) : Except Error Slot := do
  match boxed, t with
  | false, .basic b => return .ofUnboxed (← m.readUnboxed b r)
  | _, t => return .value (← m.readValue t r)

/-- A record with the value at a cursor in a slot. -/
def readInto (m : Marshaller) (t : Ty) (r : Reader) (record : CallRecord) (index : Int)
    (boxed : Bool) : Except Error CallRecord := do
  record.set index (← m.readSlot t r boxed)

end Marshaller

end DBus
