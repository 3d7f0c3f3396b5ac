import DBus.Argument

/-!
# Arenas

An argument owns its nodes in an *arena*, in the order in which the signature writes them. A node
knows its code, the number of the node that it stands in and the numbers of those that stand in it.

A signature is parsed straight into an arena, by recursive descent. The node of a type is pushed
when its code is read, and is listed by the node around it at once, so that a container lists only
some of its children for as long as it is read (`Arena.push`). `Arena.completeType` reads one type
with all that is inside of it, `Arena.structFields` the fields of a struct and
`Arena.dictEntryFields` those of a dict entry. Each of them leaves fewer bytes than it was given.

`Arena.signature` writes the signature of a node, `Arena.typeAt` is the type as a tree, and
`Arena.child` looks up one of its children.
-/

namespace DBus

/-- One type in an arena. -/
structure ArenaNode where
  code : TypeCode
  /-- The number of the node that this one stands directly inside of. -/
  parent : Option Nat
  /-- The numbers of the nodes directly inside this one, in order. -/
  children : List Nat := []
  deriving DecidableEq, Repr

/-- Nodes by number. -/
abbrev Arena := List ArenaNode

/-- The node as it stands in an arena, where the type is told by the code and the children. -/
def Node.bare (n : Node) : ArenaNode :=
  { code := n.ty.code, parent := n.parent, children := n.children }

/-- The arena of a type. -/
def Ty.arena (t : Ty) : Arena := t.nodes.map Node.bare

/-- How many arrays, and how many structs and dict entries, are open. -/
structure Depth where
  arrays : Nat := 0
  structs : Nat := 0

namespace Depth

/-- Open an array. -/
def enterArray (d : Depth) : Except SignatureFault Depth :=
  if d.arrays = maxTypeDepth then .error .exceededMaximumArrayRecursion
  else .ok { d with arrays := d.arrays + 1 }

/-- Open a struct or a dict entry. -/
def enterStruct (d : Depth) : Except SignatureFault Depth :=
  if d.structs = maxTypeDepth then .error .exceededMaximumStructRecursion
  else .ok { d with structs := d.structs + 1 }

end Depth

namespace Arena

/-! ## Nodes -/

/-- The nodes, where `id` is the last child of another one. -/
def addChild (ns : Arena) (id : Nat) : (parent : Option Nat) → Arena
  | none => ns
  | some p => ns.modify p fun n => { n with children := n.children ++ [id] }

/-- One more node, which the node around it lists. -/
def push (ns : Arena) (code : TypeCode) (parent : Option Nat) : Arena :=
  addChild (ns ++ [⟨code, parent, []⟩]) ns.length parent

/-- The code of a node. -/
def code? (ns : Arena) (i : Nat) : Option TypeCode := ns[i]?.map ArenaNode.code

/-- The node that a node stands directly inside of. -/
def parent? (ns : Arena) (i : Nat) : Option Nat := ns[i]?.bind ArenaNode.parent

/-- The nodes directly inside a node. -/
def childrenOf (ns : Arena) (i : Nat) : List Nat := (ns[i]?.map ArenaNode.children).getD []

/-! ## Parsing -/

/-- The key of a dict entry starts here, if anything does. -/
def checkKey : Bytes → Except SignatureFault Unit
  | [] => .error .dictEntryStartedButNotEnded
  | b :: _ =>
    if b = Ty.entryEnd then .error .dictEntryHasNoFields
    else if (TypeCode.ofByte? b).any TypeCode.isContainer then .error .dictKeyMustBeBasicType
    else .ok ()

/-- The value of a dict entry starts here, if anything does. -/
def checkValue : Bytes → Except SignatureFault Unit
  | [] => .error .dictEntryStartedButNotEnded
  | b :: _ => if b = Ty.entryEnd then .error .dictEntryHasOnlyOneField else .ok ()

/-- A dict entry ends here. -/
def checkEntryEnd : Bytes → Except SignatureFault Unit
  | [] => .error .dictEntryStartedButNotEnded
  | b :: _ => if b = Ty.entryEnd then .ok () else .error .dictEntryHasTooManyFields

/-- What follows the beginning of a text, and the nodes after that beginning is read. -/
abbrev Rest (s : Bytes) := { p : Bytes × Arena // p.1.length < s.length }

mutual

/-- One type inside of `parent`, with all that is inside of it. -/
def completeType (parent : Option Nat) (inArray : Bool) (depth : Depth) (ns : Arena)
    (s : Bytes) : Except SignatureFault (Rest s) :=
  match s with
  | [] => .error (if inArray then .missingArrayElementType else .empty)
  | b :: s =>
    match TypeCode.ofByte? b with
    | none =>
      .error (if inArray && (b = Ty.structEnd || b = Ty.entryEnd) then .missingArrayElementType
        else Scan.strayByte b)
    | some code => do
      let id := ns.length
      let ns := push ns code parent
      match code with
      | .basic _ | .variant => return ⟨(s, ns), Nat.lt_succ_self _⟩
      | .array =>
        let ⟨rest, h⟩ ← completeType (some id) true (← depth.enterArray) ns s
        return ⟨rest, Nat.lt_succ_of_lt h⟩
      | .struct =>
        let ⟨rest, h⟩ ← structFields id (← depth.enterStruct) ns s
        if (childrenOf rest.2 id).isEmpty then throw .structHasNoFields
        return ⟨rest, Nat.lt_succ_of_lt h⟩
      | .dictEntry =>
        if !inArray then throw .dictEntryNotInsideArray
        let ⟨rest, h⟩ ← dictEntryFields id (← depth.enterStruct) ns s
        return ⟨rest, Nat.lt_succ_of_lt h⟩
termination_by (s.length, 0)

/-- The types up to the end of the struct `id`. -/
def structFields (id : Nat) (depth : Depth) (ns : Arena) (s : Bytes) :
    Except SignatureFault (Rest s) :=
  match s with
  | [] => .error .structStartedButNotEnded
  | b :: s => do
    if b = Ty.structEnd then return ⟨(s, ns), Nat.lt_succ_self _⟩
    let ⟨(rest, ns), h⟩ ← completeType (some id) false depth ns (b :: s)
    let ⟨rest, h'⟩ ← structFields id depth ns rest
    return ⟨rest, Nat.lt_trans h' h⟩
termination_by (s.length, 1)

/-- The key and the value of the dict entry `id`, and its end. -/
def dictEntryFields (id : Nat) (depth : Depth) (ns : Arena) (s : Bytes) :
    Except SignatureFault (Rest s) := do
  checkKey s
  let ⟨(rest, ns), h⟩ ← completeType (some id) false depth ns s
  checkValue rest
  let ⟨(rest, ns), h'⟩ ← completeType (some id) false depth ns rest
  checkEntryEnd rest
  return ⟨(rest.tail, ns), by simp only [List.length_tail] at *; omega⟩
termination_by (s.length, 1)

end

/-- An arena for each of the complete types that a text lists. -/
def completeTypes (s : Bytes) : Except SignatureFault (List Arena) :=
  match s with
  | [] => .ok []
  | b :: s => do
    let ⟨(rest, ns), hrest⟩ ← completeType none false {} [] (b :: s)
    have : rest.length < (b :: s).length := hrest
    return ns :: (← completeTypes rest)
termination_by s.length
decreasing_by exact this

/-- The arenas of the complete types in a signature. -/
def parseTypes (s : Bytes) : Except SignatureFault (List Arena) := do
  checkLength s
  completeTypes s

/-- The arena of a signature that holds exactly one complete type. -/
def parseType (s : Bytes) : Except SignatureFault Arena := do
  checkLength s
  let ⟨(rest, ns), _⟩ ← completeType none false {} [] s
  if !rest.isEmpty then throw .multipleCompleteTypes
  return ns

/-- The arenas of the arguments that a signature lists. -/
def listOfSignature (s : Bytes) : Except Error (List Arena) :=
  (parseTypes s).mapError (.malformedSignature (shownText s))

/-- The arena of the argument of a signature that holds exactly one type. -/
def ofSignature (s : Bytes) : Except Error Arena :=
  (parseType s).mapError (.malformedSignature (shownText s))

/-- The arena of the argument that a native type stands for. -/
def ofNative (t : NativeType) : Except Error Arena := do
  ofSignature (← t.wireSignature)

/-! ## Looking around -/

/-- The child of a node at a position. -/
def child? (ns : Arena) (i k : Nat) : Option Nat := (childrenOf ns i)[k]?

/-- The element of an array. -/
def element? (ns : Arena) (i : Nat) : Option Nat :=
  if code? ns i = some .array then child? ns i 0 else none

/-- The key of a dict entry. -/
def key? (ns : Arena) (i : Nat) : Option Nat :=
  if code? ns i = some .dictEntry then child? ns i 0 else none

/-- The value of a dict entry. -/
def value? (ns : Arena) (i : Nat) : Option Nat :=
  if code? ns i = some .dictEntry then child? ns i 1 else none

/-- What is made of the code of a node and of what its children are made into, at most `levels`
levels deep. -/
def foldWithin {α : Type} (f : TypeCode → List α → α) (missing : α) (ns : Arena) :
    (levels : Nat) → Nat → α
  | 0, _ => missing
  | levels + 1, i =>
    match ns[i]? with
    | none => missing
    | some n => f n.code (n.children.map (foldWithin f missing ns levels))

/-- A node has fewer levels inside of it than there are nodes. -/
def fold {α : Type} (f : TypeCode → List α → α) (missing : α) (ns : Arena) (i : Nat) : α :=
  foldWithin f missing ns ns.length i

/-- The signature of a type, of the signatures of what is inside of it. -/
def writeSignature (c : TypeCode) (parts : List Bytes) : Bytes :=
  c.byte :: (parts.flatten ++
    match c with
    | .struct => [Ty.structEnd]
    | .dictEntry => [Ty.entryEnd]
    | _ => [])

/-- The signature of a node. -/
def signature (ns : Arena) (i : Nat) : Bytes := fold writeSignature [] ns i

/-- A type, of the types inside of it. -/
def buildType : TypeCode → List Ty → Ty
  | .basic c, _ => .basic c
  | .array, [e] => .array e
  | .struct, ts => .struct ts
  | .dictEntry, [.basic k, v] => .dictEntry k v
  | _, _ => .variant

/-- The type at a node. -/
def typeAt (ns : Arena) (i : Nat) : Ty := fold buildType .variant ns i

/-- The node of a number, which has to be there. -/
def node (ns : Arena) (i : Nat) : Except Error ArenaNode :=
  match ns[i]? with
  | some n => .ok n
  | none => .error (.indexOutOfBounds i)

/-- The child of a node at a position, which has to be there. -/
def child (ns : Arena) (i k : Nat) : Except Error Nat :=
  match child? ns i k with
  | some c => .ok c
  | none => .error (.typeMismatch (.missingChild k (signature ns i)))

end Arena

end DBus
