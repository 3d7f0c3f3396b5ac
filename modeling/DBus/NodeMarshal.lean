import DBus.Arena
import DBus.Marshal
import DBus.Unmarshal

/-!
# Values by the nodes of a type

`Marshaller.readNode` and `Marshaller.writeNode` read and write a value along the nodes of an arena,
as `Marshaller.readValue` and `Marshaller.writeValue` do along the type as a tree. They look up
the element of an array and the key and value of a dict entry among the children of the node,
where these may be missing. The type in a variant comes with an arena of its own.
-/

namespace DBus

/-- The arena of the type of the contents of a variant. -/
def variantArena (signature : Bytes) : Except Error Arena := do
  let s ← readText signature
  match Arena.parseType signature with
  | .ok ns => return ns
  | .error fault => throw (.malformedVariant s fault)

namespace Marshaller

/-! ## Reading -/

/-- The value at a cursor, given how the values one level deeper are read. -/
def readNodeBy (m : Marshaller)
    (inner : (room : Nat) → Arena → Nat → Reader → Except Error Value) (room : Nat) (ns : Arena)
    (i : Nat) (r : Reader) : Except Error Value := do
  let n ← ns.node i
  discard (m.policy.entry n.code)
  expectCode n.code r
  match n.code with
  | .basic (.fixed c) => return .scalar (.ofWord c (← r.word))
  | .basic (.text c) =>
    let s ← r.text
    c.check s
    return .text c s
  | .array =>
    let element ← ns.child i 0
    let room ← m.deeper room
    let items ← r.enter
    return .array (← readItems (inner room ns element) (items.stop - items.pos) items)
  | .struct =>
    let room ← m.deeper room
    return .struct (← readFields (inner room ns) n.children (← r.enter))
  | .dictEntry =>
    let room ← m.deeper room
    let entry ← r.enter
    let key ← inner room ns (← ns.child i 0) entry
    let entry ← entry.advance
    return .dictEntry key (← inner room ns (← ns.child i 1) entry)
  | .variant =>
    let room ← m.deeper room
    let contents ← r.enter
    let us ← variantArena contents.signature
    return .variant ⟨us.typeAt 0, none⟩ (← inner room us 0 contents)

/-- The value at a cursor, looking at most `levels` levels deep. -/
def readNodeWithin (m : Marshaller) :
    (levels : Nat) → (room : Nat) → Arena → Nat → Reader → Except Error Value
  | 0 => m.readNodeBy fun _ _ _ _ => .error (.depthExceeded maxNesting)
  | levels + 1 => m.readNodeBy (m.readNodeWithin levels)

/-- The value at a cursor as a value of the type of a node. -/
def readNode (m : Marshaller) (ns : Arena) (i : Nat) (r : Reader) : Except Error Value :=
  m.readNodeWithin r.levels m.maxDepth ns i r

/-! ## Writing -/

/-- Append a value, given how values one level deeper are appended. -/
def writeNodeBy (m : Marshaller)
    (inner : (room : Nat) → Arena → Nat → Value → Writer → Write Unit) (room : Nat) (ns : Arena)
    (i : Nat) (v : Value) (w : Writer) : Write Unit := do
  let n ← ns.node i
  discard (m.policy.entry n.code)
  match n.code, v with
  | .basic b, v => writeUnboxed (.basic b) w (← m.unbox (.basic b) v)
  | .array, .array vs =>
    let element ← ns.child i 0
    let room ← m.deeper room
    let items ← w.openArray (ns.signature element)
    vs.forM fun v => inner room ns element v items
    items.close
  | .struct, .struct vs =>
    if n.children.length ≠ vs.length then
      throw (.typeMismatch (.fieldCount n.children.length vs.length))
    let room ← m.deeper room
    let fields ← w.openStruct (ns.signature i)
    writeFields (fun c v => inner room ns c v fields) n.children vs
    fields.close
  | .dictEntry, .dictEntry key value =>
    let room ← m.deeper room
    let entry ← w.openDictEntry
    inner room ns (← ns.child i 0) key entry
    inner room ns (← ns.child i 1) value entry
    entry.close
  | .variant, v =>
    let (u, contents) ← v.asVariant
    let room ← m.deeper room
    let inside ← w.openVariant u.ty.render
    inner room u.ty.arena 0 contents inside
    inside.close
  | _, v => throw (.typeMismatch (.containerType (ns.typeAt i) v.code))

/-- Append a value, going at most `levels` levels deep. -/
def writeNodeWithin (m : Marshaller) :
    (levels : Nat) → (room : Nat) → Arena → Nat → Value → Writer → Write Unit
  | 0 => m.writeNodeBy fun _ _ _ _ _ => throw (.depthExceeded maxNesting)
  | levels + 1 => m.writeNodeBy (m.writeNodeWithin levels)

/-- Append a value as a value of the type of a node. -/
def writeNode (m : Marshaller) (ns : Arena) (i : Nat) (v : Value) (w : Writer) : Write Unit :=
  m.writeNodeWithin w.levels m.maxDepth ns i v w

end Marshaller

end DBus
